import FieldNote.JobSyncService

/-!
# What a step does to the flows

The shapes of a step of the sync service: the server moves, flows are started, one flow goes
on, sends its request or receives an answer, or the app is killed. A flow that goes on holds
no answer any more, and as pulled jobs only those of pages that it had received.
-/
namespace FieldNote.JobSyncService
open JobStore JobsService

/-- A flow that has sent and received nothing. -/
structure Fresh (g : Flow) : Prop where
  sent : g.sent = []
  replies : g.replies = []
  pulled : ∀ pulled, g.pc = .listing pulled → pulled = []

/-- What a flow can go on to. -/
inductive Continues (f : Flow) : Flow → Prop where
  | goto (pc : Pc) (other : ∀ pulled, pc ≠ .listing pulled) : Continues f (f.goto pc)
  | listing (pulled items : List JobDto) (pc : f.pc = .listing pulled)
      (page : .page items true ∈ f.replies) : Continues f (f.goto (.listing (pulled ++ items)))
  | finish (pc : Pc) : Continues f (f.finish pc)
  | stop : Continues f f.stop

/-- Where an answer comes from: a thread that serves the request, or a read of the stores. -/
inductive Received (cfg : ServerConfig) (userId : String) (w : World) (f : Flow) : Reply → Prop where
  | answered (thread : ℕ) (t : ServerRuns.Thread) (r : Reply) (sent : thread ∈ f.sent)
      (at_ : w.server.threads[thread]? = some t) (reply : threadReply t = some r) :
      Received cfg userId w f r
  | read (ids : List String) (more : Bool) (r : Reply)
      (reply : readReply cfg userId w.server.stores ids more f = some r) :
      Received cfg userId w f r

/-- The flows and the server after a step. -/
inductive FlowShape (cfg : ServerConfig) (userId : String) (w : World) :
    List Flow → ServerRuns.World → Prop where
  | server (b : ServerRuns.Action) (server : ServerRuns.World)
      (step : ServerRuns.step cfg w.server b = some server) :
      FlowShape cfg userId w w.flows server
  | started (new : List Flow) (fresh : ∀ g ∈ new, Fresh g) :
      FlowShape cfg userId w (w.flows ++ new) w.server
  | turned (i : ℕ) (f g : Flow) (new : List Flow) (at_ : w.flows[i]? = some f)
      (live : f.live = true) (continues : Continues f g) (fresh : ∀ g ∈ new, Fresh g) :
      FlowShape cfg userId w (w.flows.set i g ++ new) w.server
  | sent (i : ℕ) (f : Flow) (r : ServerRuns.Request) (at_ : w.flows[i]? = some f)
      (request : request userId f = some r) :
      FlowShape cfg userId w
        (w.flows.set i { f with sent := f.sent ++ [w.server.threads.length] })
        { w.server with threads := w.server.threads ++ [r.thread] }
  | received (i : ℕ) (f : Flow) (r : Reply) (at_ : w.flows[i]? = some f)
      (from_ : Received cfg userId w f r) :
      FlowShape cfg userId w (w.flows.set i { f with replies := f.replies ++ [r] }) w.server
  | stored (i : ℕ) (f : Flow) (id path : String) (server : ServerRuns.World)
      (at_ : w.flows[i]? = some f) (uploads : f.uploads = some (id, path))
      (step : ServerRuns.step cfg w.server (.upload userId id path) = some server) :
      FlowShape cfg userId w (w.flows.set i { f with replies := f.replies ++ [.uploaded] }) server
  | killed : FlowShape cfg userId w (w.flows.map Flow.stop) w.server

theorem fresh_start (task : Task) {pc : Pc} (hpc : ∀ pulled, pc = .listing pulled → pulled = []) :
    Fresh (.start task pc) := ⟨rfl, rfl, hpc⟩

variable {cfg : ServerConfig} {userId : String} {w w' : World} {i : ℕ} {f : Flow}

/-- One flow goes on, and the cache or the active jobs change beside it. -/
theorem shape_turned {g : Flow} (hf : w.flows[i]? = some f) (hlive : f.live = true)
    (hg : Continues f g) (hflows : w'.flows = w.flows.set i g) (hserver : w'.server = w.server) :
    FlowShape cfg userId w w'.flows w'.server := by
  rw [hflows, hserver, ← List.append_nil (w.flows.set i g)]
  exact .turned i f g [] hf hlive hg (by simp)

theorem beginPoll_shape {jobId : String} (hf : w.flows[i]? = some f) (hlive : f.live = true) :
    FlowShape cfg userId w (w.beginPoll i f jobId).flows (w.beginPoll i f jobId).server := by
  unfold World.beginPoll
  split_ifs
  · exact shape_turned hf hlive (.finish .returned) rfl rfl
  · exact shape_turned hf hlive (.goto (.polling 1) (by simp)) rfl rfl

theorem nextPush_ne_listing (cache : Cache) (ids : List String) (pulled : List JobDto) :
    nextPush cache ids ≠ .listing pulled := by
  induction ids with
  | nil => simp [nextPush]
  | cons id rest ih =>
      unfold nextPush
      split
      · split_ifs
        · simp
        · exact ih
      · exact ih

theorem push_shape {rest : List String} (hf : w.flows[i]? = some f) (hlive : f.live = true) :
    FlowShape cfg userId w (w.push i f rest).flows (w.push i f rest).server := by
  unfold World.push
  split
  · exact shape_turned hf hlive (.finish .returned) rfl rfl
  · exact shape_turned hf hlive (.goto _ (nextPush_ne_listing w.cache rest)) rfl rfl

/-- The cache plays no part in the shape. -/
theorem FlowShape.of_cache {cache : Cache} {flows : List Flow} {server : ServerRuns.World}
    (h : FlowShape cfg userId { w with cache := cache } flows server) :
    FlowShape cfg userId w flows server := by
  cases h with
  | server b server hs => exact .server b server hs
  | started new hfresh => exact .started new hfresh
  | turned i f g new hf hlive hg hfresh => exact .turned i f g new hf hlive hg hfresh
  | sent i f r hf hr => exact .sent i f r hf hr
  | received i f r hf hr =>
      refine .received i f r hf ?_
      cases hr with
      | answered thread t r hsent ht hreply => exact .answered thread t r hsent ht hreply
      | read ids more r hreply => exact .read ids more r hreply
  | stored i f id path server hf hu hs => exact .stored i f id path server hf hu hs
  | killed => exact .killed

theorem resume_shape {k : ℕ} {r : Reply} (hf : w.flows[i]? = some f) (hlive : f.live = true)
    (hr : f.replies[k]? = some r) (h : resume w i f r = some w') :
    FlowShape cfg userId w w'.flows w'.server := by
  cases r with
  | page items more =>
      simp only [resume] at h
      split at h
      · rename_i now pulled htask hpc
        split_ifs at h with hmore
        · cases h
          subst hmore
          exact shape_turned hf hlive (.listing pulled items hpc (List.mem_of_getElem? hr)) rfl rfl
        · cases h
          refine .turned i f _ _ hf hlive (.finish .returned) ?_
          intro g hg
          obtain ⟨task, -, rfl⟩ := List.mem_map.mp hg
          exact fresh_start task (by simp)
      · cases h
  | created response =>
      simp only [resume] at h
      split at h
      · cases h
        refine .turned i f _ _ hf hlive (.finish (.reported response)) ?_
        intro g hg
        rw [List.mem_singleton.mp hg]
        exact fresh_start _ (by simp)
      · cases h
  | uploaded =>
      simp only [resume] at h
      split at h
      · cases h
        exact shape_turned hf hlive (.goto .processing (by simp)) rfl rfl
      · cases h
  | job dto =>
      simp only [resume] at h
      split at h
      · cases h
        exact shape_turned hf hlive (.goto (.polling 1) (by simp)) rfl rfl
      · cases h
        exact (beginPoll_shape (w := { w with cache := upsert w.cache dto }) hf hlive).of_cache
      · cases h
        exact (beginPoll_shape (w := { w with cache := upsert w.cache dto }) hf hlive).of_cache
      · cases h
        exact (push_shape (w := { w with cache := upsert w.cache dto }) hf hlive).of_cache
      · split_ifs at h
        · cases h
          refine shape_turned hf hlive (.finish .returned) ?_ ?_ <;>
            simp only [World.endPoll, World.setFlow, World.release] <;> split <;> rfl
        · cases h
          exact shape_turned hf hlive (.goto (.sleeping _) (by simp)) rfl rfl
      · cases h
  | deleted =>
      simp only [resume] at h
      split at h
      · cases h
        exact shape_turned hf hlive (.finish .returned) rfl rfl
      · cases h

theorem fail_shape (hf : w.flows[i]? = some f) (hlive : f.live = true) (h : fail w i f = some w') :
    FlowShape cfg userId w w'.flows w'.server := by
  have hreleased : ((w.release f).setFlow i f.stop).flows = w.flows.set i f.stop ∧
      ((w.release f).setFlow i f.stop).server = w.server := by
    constructor <;> simp only [World.setFlow, World.release] <;> split <;> rfl
  unfold fail at h
  split at h
  case h_6 =>
    cases h
    exact shape_turned hf hlive (.goto (.sleeping _) (by simp)) rfl rfl
  case h_7 =>
    cases h
    exact push_shape hf hlive
  case h_8 => cases h
  all_goals
    cases h
    exact shape_turned hf hlive .stop hreleased.1 hreleased.2

/-- Every step has one of the shapes. -/
theorem step_flows {a : Action} (hs : step cfg userId w a = some w') :
    FlowShape cfg userId w w'.flows w'.server := by
  have hsame : FlowShape cfg userId w w.flows w.server := by
    rw [← List.append_nil w.flows]
    exact .started [] (by simp)
  have hone : ∀ {g : Flow}, Fresh g → FlowShape cfg userId w (w.flows ++ [g]) w.server := by
    intro g hg
    refine .started [g] ?_
    intro g' hg'
    rw [List.mem_singleton.mp hg']
    exact hg
  cases a with
  | server b =>
      obtain ⟨server, hserver, rfl⟩ := Option.map_eq_some_iff.mp hs
      exact .server b server hserver
  | refresh now =>
      cases hs
      refine hone (fresh_start _ ?_)
      intro pulled hpc
      cases hpc
      rfl
  | startReport label path now key =>
      simp only [step] at hs
      split_ifs at hs
      cases hs
      exact hone (fresh_start _ (by simp))
  | saveEdits jobId label sections now =>
      simp only [step] at hs
      split at hs <;> cases hs
      · exact hone (fresh_start _ (by simp))
      · exact hsame
  | pushPendingEdits =>
      simp only [step] at hs
      split at hs
      · cases hs
        exact hsame
      · cases hs
        refine hone (fresh_start _ ?_)
        intro pulled hpc
        exact (nextPush_ne_listing _ _ _ hpc).elim
  | poll jobId =>
      have hset : ∀ g : Flow, (w.flows ++ [Flow.start (.poll jobId) .starting]).set
          w.flows.length g = w.flows ++ [g] := by
        intro g
        simp
      cases hs
      unfold World.beginPoll
      split_ifs
      · simp only [World.spawn, World.setFlow, hset]
        exact hone ⟨rfl, rfl, by simp [Flow.finish, Flow.goto]⟩
      · simp only [World.spawn, World.setFlow, hset]
        exact hone ⟨rfl, rfl, by simp [Flow.goto]⟩
  | retry jobId =>
      cases hs
      exact hone (fresh_start _ (by simp))
  | delete jobId =>
      cases hs
      exact hone (fresh_start _ (by simp))
  | uploadFinished jobId =>
      simp only [step] at hs
      split_ifs at hs
      cases hs
      exact hone (fresh_start _ (by simp))
  | begin i =>
      obtain ⟨f, hf, hs⟩ := Option.bind_eq_some_iff.mp hs
      split at hs
      · rename_i hlive _ _
        cases hs
        exact shape_turned hf hlive (.goto .uploading (by simp)) rfl rfl
      · rename_i hlive _ _
        cases hs
        exact beginPoll_shape hf hlive
      · cases hs
  | send i =>
      obtain ⟨f, hf, hs⟩ := Option.bind_eq_some_iff.mp hs
      split_ifs at hs
      obtain ⟨r, hr, rfl⟩ := Option.map_eq_some_iff.mp hs
      exact .sent i f r hf hr
  | answer i thread =>
      obtain ⟨f, hf, hs⟩ := Option.bind_eq_some_iff.mp hs
      split_ifs at hs with hsent
      obtain ⟨r, hr, rfl⟩ := Option.map_eq_some_iff.mp hs
      obtain ⟨t, ht, hreply⟩ := Option.bind_eq_some_iff.mp hr
      exact .received i f r hf (.answered thread t r hsent ht hreply)
  | read i ids more =>
      obtain ⟨f, hf, hs⟩ := Option.bind_eq_some_iff.mp hs
      obtain ⟨r, hr, rfl⟩ := Option.map_eq_some_iff.mp hs
      exact .received i f r hf (.read ids more r hr)
  | store i =>
      obtain ⟨f, hf, hs⟩ := Option.bind_eq_some_iff.mp hs
      obtain ⟨⟨id, path⟩, hu, hs⟩ := Option.bind_eq_some_iff.mp hs
      obtain ⟨server, hserver, rfl⟩ := Option.map_eq_some_iff.mp hs
      exact .stored i f id path server hf hu hserver
  | deliver i k =>
      obtain ⟨f, hf, hs⟩ := Option.bind_eq_some_iff.mp hs
      split_ifs at hs with hlive
      obtain ⟨r, hr, hs⟩ := Option.bind_eq_some_iff.mp hs
      exact resume_shape hf hlive hr hs
  | fail i =>
      obtain ⟨f, hf, hs⟩ := Option.bind_eq_some_iff.mp hs
      split_ifs at hs with hlive
      exact fail_shape hf hlive hs
  | wake i =>
      obtain ⟨f, hf, hs⟩ := Option.bind_eq_some_iff.mp hs
      split at hs
      · rename_i attempt hlive hpc
        split_ifs at hs <;> cases hs
        · exact shape_turned hf hlive (.goto (.polling (attempt + 1)) (by simp)) rfl rfl
        · refine shape_turned hf hlive (.finish .returned) ?_ ?_ <;>
            simp only [World.endPoll, World.setFlow, World.release] <;> split <;> rfl
      · cases hs
  | kill =>
      cases hs
      exact .killed

end FieldNote.JobSyncService
