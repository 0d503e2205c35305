import FieldNote.CallPool
import FieldNote.GuardedRuns
import Mathlib.Data.List.NodupEquivFin

/-!
# The browser of the PDF renderer

`PdfRendererService` keeps one headless browser and one promise of a launch in flight.
`getBrowser` and the callbacks of the launch run to their end between two awaits, so each is one
step; a render awaits the browser, its page, the two operations on the page, and the `finally`.
A browser may disconnect at any time, with all its pages. HTML and PDF bytes play no part here.
-/
namespace FieldNote.PdfRenderer
open GuardedRuns CallPool

/-- The promise `launching` holds. -/
inductive Launch where
  | pending
  | resolved (browser : ℕ)
  | rejected
deriving DecidableEq, Repr

structure Page where
  browser : ℕ
  live : Bool
deriving DecidableEq, Repr

/-- The awaits of `render`; in `close` the `finally` runs, with what the `try` came to. When
`page.close` throws, the call rejects and nothing closes the page again. -/
inductive RenderPc where
  | getBrowser (launch : ℕ)
  | newPage (browser : ℕ)
  | setContent (page : ℕ)
  | pdf (page : ℕ)
  | close (page : ℕ) (ok : Bool)
  | returned
  | threw
  | closeThrew (page : ℕ)
deriving DecidableEq, Repr

/-- `onModuleDestroy`. -/
inductive DestroyPc where
  | close (browser : ℕ)
  | done
deriving DecidableEq, Repr

structure State where
  browser : Option ℕ
  launching : Option ℕ
  launches : List Launch
  /-- whether each browser ever launched is still connected -/
  browsers : List Bool
  pages : List Page
  renders : List RenderPc
  destroys : List DestroyPc
deriving DecidableEq

def init : State := ⟨none, none, [], [], [], [], []⟩

namespace State

def connected (s : State) (b : ℕ) : Bool := s.browsers[b]? = some true

/-- The browser that `getBrowser` may reuse. -/
def reusable (s : State) : Option ℕ := s.browser.filter s.connected

/-- The synchronous part of `getBrowser`: the connected browser, the launch in flight, or a new
launch. -/
def getBrowser (s : State) : State × RenderPc :=
  match s.reusable with
  | some b => (s, .newPage b)
  | none =>
      match s.launching with
      | some l => (s, .getBrowser l)
      | none =>
          ({ s with
            launching := some s.launches.length
            launches := s.launches ++ [.pending] }, .getBrowser s.launches.length)

/-- A browser goes, and its pages with it. -/
def disconnect (s : State) (b : ℕ) : State :=
  { s with
    browsers := s.browsers.set b false
    pages := s.pages.map fun p => if p.browser = b then { p with live := false } else p }

def closePage (s : State) (p : ℕ) : State :=
  { s with pages := s.pages.modify p fun page => { page with live := false } }

def setRender (s : State) (i : ℕ) (pc : RenderPc) : State :=
  { s with renders := s.renders.set i pc }

end State

inductive Action where
  | render
  | launched (launch : ℕ)
  | launchFailed (launch : ℕ)
  | step (i : ℕ)
  | throw (i : ℕ)
  | crash (browser : ℕ)
  | destroy
  | stepDestroy (i : ℕ) (closed : Bool)

/-- The await of a render resolves. -/
def stepRender (s : State) (i : ℕ) : RenderPc → Option State
  | .getBrowser l =>
      match s.launches[l]? with
      | some (.resolved b) => some (s.setRender i (.newPage b))
      | some .rejected => some (s.setRender i .threw)
      | _ => none
  | .newPage b =>
      if s.connected b then
        some { s.setRender i (.setContent s.pages.length) with pages := s.pages ++ [⟨b, true⟩] }
      else none
  | .setContent p => some (s.setRender i (.pdf p))
  | .pdf p => some (s.setRender i (.close p true))
  | .close p ok => some ((s.closePage p).setRender i (if ok then .returned else .threw))
  | _ => none

/-- The await of a render rejects. -/
def throwRender (s : State) (i : ℕ) : RenderPc → Option State
  | .newPage _ => some (s.setRender i .threw)
  | .setContent p => some (s.setRender i (.close p false))
  | .pdf p => some (s.setRender i (.close p false))
  | .close p _ => some (s.setRender i (.closeThrew p))
  | _ => none

def step (s : State) : Action → Option State
  | .render => some { s.getBrowser.1 with renders := s.renders ++ [s.getBrowser.2] }
  | .launched l =>
      if s.launches[l]? = some .pending then
        some { s with
          browser := some s.browsers.length
          launching := none
          launches := s.launches.set l (.resolved s.browsers.length)
          browsers := s.browsers ++ [true] }
      else none
  | .launchFailed l =>
      if s.launches[l]? = some .pending then
        some { s with
          launching := none
          launches := s.launches.set l .rejected }
      else none
  | .step i => s.renders[i]?.bind (stepRender s i)
  | .throw i => s.renders[i]?.bind (throwRender s i)
  | .crash b => if s.connected b then some (s.disconnect b) else none
  | .destroy =>
      some { s with destroys := s.destroys ++ [
        match s.browser with
        | some b => .close b
        | none => .done] }
  | .stepDestroy i closed =>
      s.destroys[i]?.bind fun pc =>
        match pc with
        | .close b =>
            let s' := if closed then s.disconnect b else s
            some { s' with
              browser := none
              destroys := s.destroys.set i .done }
        | .done => none

/-- The module is destroyed once, when no launch is in flight, no render is asked for later, and
the browser does close. -/
def Calm (s : State) : Action → Prop
  | .render => s.destroys = []
  | .destroy => s.destroys = [] ∧ s.launching = none
  | .stepDestroy _ closed => closed = true
  | _ => True

instance : DecidableRel Calm := fun s a => by
  cases a <;> unfold Calm <;> infer_instance

/-- The one browser and the one launch: a connected browser is the one at hand, a pending launch
the one in flight, and there is never both. -/
structure Single (s : State) : Prop where
  browser : ∀ b, s.connected b = true → s.browser = some b
  launching : ∀ l, s.launches[l]? = some .pending ↔ s.launching = some l
  one : ∀ l b, s.launching = some l → s.connected b = false

/-- How far the destruction of the module is. -/
inductive Ending (s : State) : Prop where
  | running (none : s.destroys = [])
  | closing (b : ℕ) (destroys : s.destroys = [.close b]) (idle : s.launching = none)
      (browser : s.browser = some b)
  | closed (destroys : s.destroys = [.done]) (idle : s.launching = none)
      (gone : ∀ b, s.connected b = false)

variable {s s' : State} {a : Action}

/-- A step that leaves the browsers, the launches and the destruction alone. -/
structure Aside (s s' : State) : Prop where
  browser : s'.browser = s.browser
  launching : s'.launching = s.launching
  launches : s'.launches = s.launches
  browsers : s'.browsers = s.browsers
  destroys : s'.destroys = s.destroys

theorem stepRender_aside {i : ℕ} {pc : RenderPc} (h : stepRender s i pc = some s') :
    Aside s s' := by
  cases pc with
  | getBrowser l =>
      simp only [stepRender] at h
      split at h <;> cases h <;> exact ⟨rfl, rfl, rfl, rfl, rfl⟩
  | newPage b =>
      simp only [stepRender] at h
      split_ifs at h
      cases h
      exact ⟨rfl, rfl, rfl, rfl, rfl⟩
  | _ => cases h <;> exact ⟨rfl, rfl, rfl, rfl, rfl⟩

theorem throwRender_aside {i : ℕ} {pc : RenderPc} (h : throwRender s i pc = some s') :
    Aside s s' := by
  cases pc <;> cases h <;> exact ⟨rfl, rfl, rfl, rfl, rfl⟩

theorem Aside.connected (h : Aside s s') (b : ℕ) : s'.connected b = s.connected b := by
  simp only [State.connected, h.browsers]

theorem Aside.single (h : Aside s s') (hs : Single s) : Single s' := by
  refine ⟨?_, ?_, ?_⟩
  · intro b hb
    rw [h.connected] at hb
    rw [h.browser]
    exact hs.browser b hb
  · intro l
    rw [h.launches, h.launching]
    exact hs.launching l
  · intro l b hl
    rw [h.launching] at hl
    rw [h.connected]
    exact hs.one l b hl

theorem Aside.ending (h : Aside s s') (hs : Ending s) : Ending s' := by
  cases hs with
  | running none => exact .running (h.destroys.trans none)
  | closing b destroys idle browser =>
      exact .closing b (h.destroys.trans destroys) (h.launching.trans idle)
        (h.browser.trans browser)
  | closed destroys idle gone =>
      exact .closed (h.destroys.trans destroys) (h.launching.trans idle)
        fun b => (h.connected b).trans (gone b)

theorem connected_iff {b : ℕ} : s.connected b = true ↔ s.browsers[b]? = some true := by
  unfold State.connected
  exact decide_eq_true_iff

/-- Where a connected browser comes from when one is disconnected. -/
theorem connected_disconnect {b b' : ℕ} :
    (s.disconnect b).connected b' = true ↔ b' ≠ b ∧ s.connected b' = true := by
  have hiff : (s.browsers.set b false)[b']? = some true ↔ b' ≠ b ∧ s.browsers[b']? = some true := by
    constructor
    · intro h
      rcases getElem?_set_cases h with ⟨-, hf⟩ | hold
      · cases hf
      · exact hold
    · rintro ⟨hne, hb⟩
      exact (getElem?_set_other hne).trans hb
  rw [connected_iff, connected_iff]
  exact hiff

/-- When the browser at hand goes, none is left. -/
theorem disconnect_gone {b : ℕ} (hs : Single s) (h : s.browser = some b) (b' : ℕ) :
    (s.disconnect b).connected b' = false := by
  rw [← Bool.not_eq_true]
  intro hb'
  obtain ⟨hne, hbefore⟩ := connected_disconnect.mp hb'
  have hsame := (hs.browser b' hbefore).symm.trans h
  exact hne (Option.some.inj hsame)

theorem reusable_none (hs : Single s) (h : s.reusable = none) (b : ℕ) : s.connected b = false := by
  by_contra hb
  have hb : s.connected b = true := by simpa using hb
  have hbrowser := hs.browser b hb
  simp [State.reusable, hbrowser, hb] at h

theorem getBrowser_destroys : s.getBrowser.1.destroys = s.destroys := by
  unfold State.getBrowser
  split
  · rfl
  · split <;> rfl

theorem single_getBrowser (hs : Single s) : Single s.getBrowser.1 := by
  unfold State.getBrowser
  split
  · exact hs
  · rename_i hreuse
    split
    · exact hs
    · rename_i hidle
      have hgone := reusable_none hs hreuse
      refine ⟨hs.browser, ?_, fun _ b _ => hgone b⟩
      intro l
      constructor
      · intro hl
        rcases getElem?_start_cases hl with ⟨rfl, -⟩ | ⟨-, hold⟩
        · rfl
        · rw [hs.launching l, hidle] at hold
          cases hold
      · intro hl
        cases hl
        simp

theorem single_step (hs : Single s) (he : Ending s) (hg : Calm s a) (h : step s a = some s') :
    Single s' := by
  cases a with
  | render =>
      cases h
      have hnext := single_getBrowser hs
      exact ⟨hnext.browser, hnext.launching, hnext.one⟩
  | launched l =>
      simp only [step] at h
      split_ifs at h with hl
      cases h
      have hin := (hs.launching l).mp hl
      refine ⟨?_, ?_, fun l' b hl' => by cases hl'⟩
      · intro b hb
        rcases getElem?_start_cases (connected_iff.mp hb) with ⟨rfl, -⟩ | ⟨-, hold⟩
        · rfl
        · have hgone := hs.one l b hin
          simp [State.connected, hold] at hgone
      · intro l'
        constructor
        · intro hl'
          rcases getElem?_set_cases hl' with ⟨-, hf⟩ | ⟨hne, hold⟩
          · cases hf
          · rw [hs.launching l', hin] at hold
            cases hold
            exact (hne rfl).elim
        · intro hl'
          cases hl'
  | launchFailed l =>
      simp only [step] at h
      split_ifs at h with hl
      cases h
      have hin := (hs.launching l).mp hl
      refine ⟨fun b hb => ?_, ?_, fun l' b hl' => by cases hl'⟩
      · exact hs.browser b hb
      · intro l'
        constructor
        · intro hl'
          rcases getElem?_set_cases hl' with ⟨-, hf⟩ | ⟨hne, hold⟩
          · cases hf
          · rw [hs.launching l', hin] at hold
            cases hold
            exact (hne rfl).elim
        · intro hl'
          cases hl'
  | step i =>
      obtain ⟨pc, -, h⟩ := Option.bind_eq_some_iff.mp h
      exact (stepRender_aside h).single hs
  | throw i =>
      obtain ⟨pc, -, h⟩ := Option.bind_eq_some_iff.mp h
      exact (throwRender_aside h).single hs
  | crash b =>
      simp only [step] at h
      split_ifs at h
      cases h
      refine ⟨?_, hs.launching, ?_⟩
      · intro b' hb'
        exact hs.browser b' (connected_disconnect.mp hb').2
      · intro l b' hl
        by_contra hb'
        have hbefore := (connected_disconnect.mp (by simpa using hb')).2
        simp [hs.one l b' hl] at hbefore
  | destroy =>
      cases h
      exact ⟨hs.browser, hs.launching, hs.one⟩
  | stepDestroy i closed =>
      obtain ⟨pc, hi, h⟩ := Option.bind_eq_some_iff.mp h
      obtain rfl : closed = true := hg
      cases pc with
      | done => cases h
      | close b =>
          cases h
          cases he with
          | running none => simp [none] at hi
          | closed destroys idle gone =>
              rw [destroys] at hi
              cases List.mem_singleton.mp (List.mem_of_getElem? hi)
          | closing b₀ destroys idle browser =>
              rw [destroys] at hi
              cases List.mem_singleton.mp (List.mem_of_getElem? hi)
              have hgone := disconnect_gone hs browser
              refine ⟨fun b' hb' => ?_, hs.launching, fun l b' _ => hgone b'⟩
              have hb' : (s.disconnect b).connected b' = true := hb'
              rw [hgone b'] at hb'
              cases hb'

theorem ending_step (hs : Single s) (he : Ending s) (hg : Calm s a) (h : step s a = some s') :
    Ending s' := by
  cases a with
  | render =>
      cases h
      have hnone : s.destroys = [] := hg
      exact .running (getBrowser_destroys.trans hnone)
  | launched l =>
      simp only [step] at h
      split_ifs at h with hl
      cases h
      have hin := (hs.launching l).mp hl
      cases he with
      | running none => exact .running none
      | closing b destroys idle browser => simp [idle] at hin
      | closed destroys idle gone => simp [idle] at hin
  | launchFailed l =>
      simp only [step] at h
      split_ifs at h with hl
      cases h
      cases he with
      | running none => exact .running none
      | closing b destroys idle browser => exact .closing b destroys rfl browser
      | closed destroys idle gone => exact .closed destroys rfl gone
  | step i =>
      obtain ⟨pc, -, h⟩ := Option.bind_eq_some_iff.mp h
      exact (stepRender_aside h).ending he
  | throw i =>
      obtain ⟨pc, -, h⟩ := Option.bind_eq_some_iff.mp h
      exact (throwRender_aside h).ending he
  | crash b =>
      simp only [step] at h
      split_ifs at h with hb
      cases h
      cases he with
      | running none => exact .running none
      | closing b₀ destroys idle browser => exact .closing b₀ destroys idle browser
      | closed destroys idle gone =>
          rw [gone b] at hb
          cases hb
  | destroy =>
      cases h
      obtain ⟨hnone, hidle⟩ := hg
      cases hbrowser : s.browser with
      | some b => exact .closing b (by simp [hnone]) hidle rfl
      | none =>
          refine .closed (by simp [hnone]) hidle fun b => ?_
          by_contra hb
          have hat := hs.browser b (by simpa [State.connected] using hb)
          simp [hbrowser] at hat
  | stepDestroy i closed =>
      obtain ⟨pc, hi, h⟩ := Option.bind_eq_some_iff.mp h
      obtain rfl : closed = true := hg
      cases pc with
      | done => cases h
      | close b =>
          cases h
          cases he with
          | running none => simp [none] at hi
          | closed destroys idle gone =>
              rw [destroys] at hi
              cases List.mem_singleton.mp (List.mem_of_getElem? hi)
          | closing b₀ destroys idle browser =>
              have hlt := lt_of_getElem? hi
              rw [destroys] at hi hlt
              cases List.mem_singleton.mp (List.mem_of_getElem? hi)
              obtain rfl : i = 0 := by simpa using hlt
              exact .closed (by simp [destroys]) idle (disconnect_gone hs browser)

/-- A value that stands at one place of a list at most is counted at most once. -/
theorem count_le_one {α : Type*} [DecidableEq α] {xs : List α} {x : α}
    (h : ∀ i j : ℕ, xs[i]? = some x → xs[j]? = some x → i = j) : xs.count x ≤ 1 := by
  by_contra hcount
  have htwo : List.Duplicate x xs := List.duplicate_iff_two_le_count.mpr (by omega)
  obtain ⟨i, j, hij, hi, hj⟩ := List.duplicate_iff_exists_distinct_get.mp htwo
  have hsame := h i j (by simp [hi]) (by simp [hj])
  have hlt : i.val < j.val := hij
  omega

/-- In every run that meets the guard, at most one browser is connected or being launched, the
connected one is the one at hand, and none is left once the module is destroyed. -/
theorem one_browser (hw : Run step Calm init s) :
    s.browsers.count true + s.launches.count .pending ≤ 1 ∧
      (∀ b, s.connected b = true → s.browser = some b) ∧
      (DestroyPc.done ∈ s.destroys →
        s.browsers.count true = 0 ∧ s.launches.count .pending = 0) := by
  have hboth : Single s ∧ Ending s := by
    refine hw.invariant (I := fun s => Single s ∧ Ending s) ⟨⟨?_, ?_, ?_⟩, .running rfl⟩
      fun _ _ _ hi hg hs => ⟨single_step hi.1 hi.2 hg hs, ending_step hi.1 hi.2 hg hs⟩
    · simp [init, State.connected]
    · simp [init]
    · simp [init]
  obtain ⟨hs, he⟩ := hboth
  have hbrowsers : s.browsers.count true ≤ 1 := by
    apply count_le_one
    intro b b' hb hb'
    have hat := hs.browser b (connected_iff.mpr hb)
    rw [hs.browser b' (connected_iff.mpr hb')] at hat
    exact (Option.some.inj hat).symm
  have hlaunches : s.launches.count .pending ≤ 1 := by
    apply count_le_one
    intro l l' hl hl'
    have hin := (hs.launching l).mp hl
    rw [(hs.launching l').mp hl'] at hin
    exact (Option.some.inj hin).symm
  have hnone : (∀ b, s.connected b = false) → s.browsers.count true = 0 := by
    intro hgone
    rw [List.count_eq_zero]
    intro hmem
    obtain ⟨b, hb⟩ := List.mem_iff_getElem?.mp hmem
    have hfalse := hgone b
    rw [connected_iff.mpr hb] at hfalse
    cases hfalse
  have hidle : s.launching = none → s.launches.count .pending = 0 := by
    intro hlaunching
    rw [List.count_eq_zero]
    intro hmem
    obtain ⟨l, hl⟩ := List.mem_iff_getElem?.mp hmem
    rw [hs.launching l, hlaunching] at hl
    cases hl
  refine ⟨?_, hs.browser, ?_⟩
  · cases hlaunching : s.launching with
    | none =>
        have hzero := hidle hlaunching
        omega
    | some l =>
        have hzero := hnone fun b => hs.one l b hlaunching
        omega
  · intro hdone
    cases he with
    | running none => simp [none] at hdone
    | closing b destroys idle browser => simp [destroys] at hdone
    | closed destroys idle gone => exact ⟨hnone gone, hidle idle⟩

/-- Two renders share a launch; the browser crashes under the first one's page, the second one
gives up, a third launches anew, and the module is destroyed. -/
def sharedSchedule : List Action :=
  [.render, .render, .launched 0, .step 0, .step 1, .step 0, .crash 0, .throw 1, .throw 0, .step 0,
    .render, .launched 1, .step 2, .step 2, .step 2, .step 2, .step 2, .destroy,
    .stepDestroy 0 true]

theorem one_browser_demo :
    ∃ s, Run step Calm init s ∧ s.renders = [.threw, .threw, .returned] ∧ s.destroys = [.done] ∧
      s.browsers.count true = 0 ∧ s.launches.count .pending = 0 := by
  have hend : (execWhere step Calm sharedSchedule init).any (fun s =>
      decide (s.renders = [.threw, .threw, .returned] ∧ s.destroys = [.done])) = true := by decide
  obtain ⟨s, hw, hp⟩ := execWhere_any hend
  obtain ⟨hrenders, hdestroys⟩ := of_decide_eq_true hp
  exact ⟨s, hw, hrenders, hdestroys, (one_browser hw).2.2 (by simp [hdestroys])⟩

/-! ## Pages -/

/-- The page a render has opened and not closed. -/
def RenderPc.page : RenderPc → Option ℕ
  | .setContent p | .pdf p | .close p _ | .closeThrew p => some p
  | _ => none

def RenderPc.ended : RenderPc → Bool
  | .returned | .threw | .closeThrew _ => true
  | _ => false

/-- Every page that is live is held by one render. -/
structure Paged (s : State) : Prop where
  owned : ∀ (p : ℕ) (page : Page), s.pages[p]? = some page → page.live = true →
    ∃ (i : ℕ) (pc : RenderPc), s.renders[i]? = some pc ∧ pc.page = some p
  alone : ∀ (i j : ℕ) (pc pc' : RenderPc) (p : ℕ), s.renders[i]? = some pc →
    s.renders[j]? = some pc' → pc.page = some p → pc'.page = some p → i = j
  made : ∀ (i : ℕ) (pc : RenderPc) (p : ℕ), s.renders[i]? = some pc → pc.page = some p →
    p < s.pages.length
  waits : ∀ (i l : ℕ), s.renders[i]? = some (.getBrowser l) → l < s.launches.length
  flight : ∀ l, s.launching = some l → l < s.launches.length

/-- A render moves on with the page it has; no other page is opened. -/
theorem Paged.keep {i : ℕ} {pc pc' : RenderPc} (h : Paged s) (hi : s.renders[i]? = some pc)
    (hpage : pc'.page = pc.page) (hwait : ∀ l, pc' ≠ .getBrowser l) :
    Paged (s.setRender i pc') := by
  refine ⟨?_, ?_, ?_, ?_, h.flight⟩
  · intro p page hp hlive
    obtain ⟨j, pc₁, hj, hheld⟩ := h.owned p page hp hlive
    by_cases hji : j = i
    · subst hji
      rw [hi] at hj
      cases hj
      exact ⟨j, pc', getElem?_set_same hi, hpage.trans hheld⟩
    · exact ⟨j, pc₁, (getElem?_set_other hji).trans hj, hheld⟩
  · -- the place of a page is the same before
    have hback : ∀ {j : ℕ} {pc₁ : RenderPc} {p : ℕ}, (s.setRender i pc').renders[j]? = some pc₁ →
        pc₁.page = some p → ∃ pc₀ : RenderPc, s.renders[j]? = some pc₀ ∧ pc₀.page = some p := by
      intro j pc₁ p hj hheld
      rcases getElem?_set_cases hj with ⟨rfl, rfl⟩ | ⟨-, hold⟩
      · exact ⟨pc, hi, hpage ▸ hheld⟩
      · exact ⟨pc₁, hold, hheld⟩
    intro j k pc₁ pc₂ p hj hk hheld hheld'
    obtain ⟨_, hj, hheld⟩ := hback hj hheld
    obtain ⟨_, hk, hheld'⟩ := hback hk hheld'
    exact h.alone j k _ _ p hj hk hheld hheld'
  · intro j pc₁ p hj hheld
    rcases getElem?_set_cases hj with ⟨rfl, rfl⟩ | ⟨-, hold⟩
    · exact h.made j pc p hi (hpage ▸ hheld)
    · exact h.made j pc₁ p hold hheld
  · intro j l hj
    rcases getElem?_set_cases hj with ⟨-, heq⟩ | ⟨-, hold⟩
    · exact (hwait l heq.symm).elim
    · exact h.waits j l hold

/-- Pages close, launches settle or start. -/
theorem Paged.shrink {t : State} (h : Paged s) (hrenders : t.renders = s.renders)
    (hlength : t.pages.length = s.pages.length)
    (hpages : ∀ (p : ℕ) (page : Page), t.pages[p]? = some page → page.live = true →
      ∃ page' : Page, s.pages[p]? = some page' ∧ page'.live = true)
    (hlaunches : s.launches.length ≤ t.launches.length)
    (hflight : ∀ l, t.launching = some l → s.launching = some l) : Paged t := by
  refine ⟨?_, ?_, ?_, ?_, fun l hl => (h.flight l (hflight l hl)).trans_le hlaunches⟩
  · intro p page hp hlive
    obtain ⟨page', hp', hlive'⟩ := hpages p page hp hlive
    rw [hrenders]
    exact h.owned p page' hp' hlive'
  · rw [hrenders]
    exact h.alone
  · rw [hrenders, hlength]
    exact h.made
  · intro i l hi
    rw [hrenders] at hi
    have hlt := h.waits i l hi
    omega

theorem disconnect_pages {b p : ℕ} {page : Page} (hp : (s.disconnect b).pages[p]? = some page)
    (hlive : page.live = true) : ∃ page' : Page, s.pages[p]? = some page' ∧ page'.live = true := by
  simp only [State.disconnect, List.getElem?_map] at hp
  obtain ⟨page', hp', rfl⟩ := Option.map_eq_some_iff.mp hp
  refine ⟨page', hp', ?_⟩
  split_ifs at hlive with hb
  exact hlive

/-- A new render has no page. -/
theorem Paged.start {pc : RenderPc} (h : Paged s) (hpage : pc.page = none)
    (hwait : ∀ l, pc = .getBrowser l → l < s.launches.length) :
    Paged { s with renders := s.renders ++ [pc] } := by
  have hback : ∀ {j : ℕ} {pc₁ : RenderPc} {p : ℕ}, (s.renders ++ [pc])[j]? = some pc₁ →
      pc₁.page = some p → s.renders[j]? = some pc₁ := by
    intro j pc₁ p hj hheld
    rcases getElem?_start_cases hj with ⟨-, rfl⟩ | ⟨-, hold⟩
    · rw [hpage] at hheld
      cases hheld
    · exact hold
  refine ⟨?_, ?_, ?_, ?_, h.flight⟩
  · intro p page hp hlive
    obtain ⟨j, pc₁, hj, hheld⟩ := h.owned p page hp hlive
    exact ⟨j, pc₁, (List.getElem?_append_left (lt_of_getElem? hj)).trans hj, hheld⟩
  · intro j k pc₁ pc₂ p hj hk hheld hheld'
    exact h.alone j k pc₁ pc₂ p (hback hj hheld) (hback hk hheld') hheld hheld'
  · intro j pc₁ p hj hheld
    exact h.made j pc₁ p (hback hj hheld) hheld
  · intro j l hj
    rcases getElem?_start_cases hj with ⟨-, heq⟩ | ⟨-, hold⟩
    · exact hwait l heq.symm
    · exact h.waits j l hold

/-- A render opens the next page. -/
theorem Paged.opened {i b : ℕ} (h : Paged s) (hi : s.renders[i]? = some (.newPage b)) :
    Paged { s.setRender i (.setContent s.pages.length) with pages := s.pages ++ [⟨b, true⟩] } := by
  have hback : ∀ {j : ℕ} {pc₁ : RenderPc} {p : ℕ},
      (s.renders.set i (.setContent s.pages.length))[j]? = some pc₁ → pc₁.page = some p →
        (j = i ∧ p = s.pages.length) ∨ j ≠ i ∧ s.renders[j]? = some pc₁ := by
    intro j pc₁ p hj hheld
    rcases getElem?_set_cases hj with ⟨rfl, rfl⟩ | hold
    · exact .inl ⟨rfl, (Option.some.inj hheld).symm⟩
    · exact .inr hold
  refine ⟨?_, ?_, ?_, ?_, h.flight⟩
  · intro p page hp hlive
    rcases getElem?_start_cases hp with ⟨rfl, -⟩ | ⟨-, hold⟩
    · exact ⟨i, _, getElem?_set_same hi, rfl⟩
    · obtain ⟨j, pc₁, hj, hheld⟩ := h.owned p page hold hlive
      have hji : j ≠ i := by
        rintro rfl
        rw [hi] at hj
        cases hj
        cases hheld
      exact ⟨j, pc₁, (getElem?_set_other hji).trans hj, hheld⟩
  · intro j k pc₁ pc₂ p hj hk hheld hheld'
    rcases hback hj hheld with ⟨rfl, hp⟩ | ⟨-, hold⟩ <;>
      rcases hback hk hheld' with ⟨rfl, hp'⟩ | ⟨-, hold'⟩
    · rfl
    · have hlt := h.made k pc₂ p hold' hheld'
      omega
    · have hlt := h.made j pc₁ p hold hheld
      omega
    · exact h.alone j k pc₁ pc₂ p hold hold' hheld hheld'
  · intro j pc₁ p hj hheld
    simp only [List.length_append, List.length_cons, List.length_nil]
    rcases hback hj hheld with ⟨-, hp⟩ | ⟨-, hj⟩
    · omega
    · have hlt := h.made j pc₁ p hj hheld
      omega
  · intro j l hj
    rcases getElem?_set_cases hj with ⟨-, heq⟩ | ⟨-, hold⟩
    · cases heq
    · exact h.waits j l hold

/-- A render closes its page and ends. -/
theorem Paged.closed {i p : ℕ} {ok : Bool} {pc : RenderPc} (h : Paged s)
    (hi : s.renders[i]? = some (.close p ok)) (hpage : pc.page = none)
    (hwait : ∀ l, pc ≠ .getBrowser l) : Paged ((s.closePage p).setRender i pc) := by
  have hback : ∀ {j : ℕ} {pc₁ : RenderPc} {q : ℕ}, (s.renders.set i pc)[j]? = some pc₁ →
      pc₁.page = some q → s.renders[j]? = some pc₁ := by
    intro j pc₁ q hj hheld
    rcases getElem?_set_cases hj with ⟨-, rfl⟩ | ⟨-, hold⟩
    · rw [hpage] at hheld
      cases hheld
    · exact hold
  refine ⟨?_, ?_, ?_, ?_, h.flight⟩
  · intro q page hq hlive
    simp only [State.setRender, State.closePage, List.getElem?_modify] at hq
    by_cases hqp : p = q
    · subst hqp
      simp only [if_true] at hq
      obtain ⟨page', -, rfl⟩ := Option.map_eq_some_iff.mp hq
      cases hlive
    · simp only [hqp, if_false] at hq
      obtain ⟨page', hq', rfl⟩ := Option.map_eq_some_iff.mp hq
      obtain ⟨j, pc₁, hj, hheld⟩ := h.owned q page' hq' hlive
      have hji : j ≠ i := by
        rintro rfl
        rw [hi] at hj
        cases hj
        exact hqp (Option.some.inj hheld)
      exact ⟨j, pc₁, (getElem?_set_other hji).trans hj, hheld⟩
  · intro j k pc₁ pc₂ q hj hk hheld hheld'
    exact h.alone j k pc₁ pc₂ q (hback hj hheld) (hback hk hheld') hheld hheld'
  · intro j pc₁ q hj hheld
    simp only [State.setRender, State.closePage, List.length_modify]
    exact h.made j pc₁ q (hback hj hheld) hheld
  · intro j l hj
    rcases getElem?_set_cases hj with ⟨-, heq⟩ | ⟨-, hold⟩
    · exact (hwait l heq.symm).elim
    · exact h.waits j l hold

theorem paged_step (h : Paged s) (hs : step s a = some s') : Paged s' := by
  cases a with
  | render =>
      cases hs
      unfold State.getBrowser
      split
      · exact h.start rfl (by simp)
      · split
        · rename_i l hl
          refine h.start rfl ?_
          intro l' heq
          cases heq
          exact h.flight l hl
        · -- the launch that this call begins
          have hbegun : Paged { s with
              launching := some s.launches.length
              launches := s.launches ++ [.pending] } := by
            refine ⟨h.owned, h.alone, h.made, ?_, ?_⟩
            · intro i l hi
              have hlt := h.waits i l hi
              simp only [List.length_append, List.length_cons, List.length_nil]
              omega
            · intro l hl
              cases hl
              simp
          refine hbegun.start rfl ?_
          intro l heq
          cases heq
          simp
  | launched l =>
      simp only [step] at hs
      split_ifs at hs
      cases hs
      exact h.shrink rfl rfl (fun p page hp hlive => ⟨page, hp, hlive⟩) (by simp) (by simp)
  | launchFailed l =>
      simp only [step] at hs
      split_ifs at hs
      cases hs
      exact h.shrink rfl rfl (fun p page hp hlive => ⟨page, hp, hlive⟩) (by simp) (by simp)
  | step i =>
      obtain ⟨pc, hi, hs⟩ := Option.bind_eq_some_iff.mp hs
      cases pc with
      | getBrowser l =>
          simp only [stepRender] at hs
          split at hs <;> cases hs <;> exact h.keep hi rfl (by simp)
      | newPage b =>
          simp only [stepRender] at hs
          split_ifs at hs
          cases hs
          exact h.opened hi
      | setContent p =>
          cases hs
          exact h.keep hi rfl (by simp)
      | pdf p =>
          cases hs
          exact h.keep hi rfl (by simp)
      | close p ok =>
          cases hs
          cases ok <;> exact h.closed hi rfl (by simp)
      | _ => cases hs
  | throw i =>
      obtain ⟨pc, hi, hs⟩ := Option.bind_eq_some_iff.mp hs
      cases pc <;> cases hs <;> exact h.keep hi rfl (by simp)
  | crash b =>
      simp only [step] at hs
      split_ifs at hs
      cases hs
      exact h.shrink rfl (by simp [State.disconnect]) (fun p page hp => disconnect_pages hp)
        (Nat.le_refl _) fun l hl => hl
  | destroy =>
      cases hs
      exact h.shrink rfl rfl (fun p page hp hlive => ⟨page, hp, hlive⟩) (Nat.le_refl _)
        fun l hl => hl
  | stepDestroy i closed =>
      obtain ⟨pc, hi, hs⟩ := Option.bind_eq_some_iff.mp hs
      cases pc with
      | done => cases hs
      | close b =>
          cases hs
          cases closed with
          | false =>
              exact h.shrink rfl rfl (fun p page hp hlive => ⟨page, hp, hlive⟩) (Nat.le_refl _)
                fun l hl => hl
          | true =>
              exact h.shrink rfl (by simp [State.disconnect]) (fun p page hp => disconnect_pages hp)
                (Nat.le_refl _) fun l hl => hl

/-- In every run, every live page is held by exactly one render that has not closed it, a render
that has ended holds a page only if closing it threw, and a render that has not ended can go on
or waits for a launch in flight. -/
theorem pages_owned (hw : Run step anyStep init s) :
    (∀ (p : ℕ) (page : Page), s.pages[p]? = some page → page.live = true →
      ∃! i : ℕ, ∃ pc : RenderPc, s.renders[i]? = some pc ∧ pc.page = some p) ∧
    (∀ (i : ℕ) (pc : RenderPc) (p : ℕ), s.renders[i]? = some pc → pc.ended = true →
      pc.page = some p → pc = .closeThrew p) ∧
    ∀ (i : ℕ) (pc : RenderPc), s.renders[i]? = some pc → pc.ended = false →
      (step s (.step i)).isSome = true ∨ (step s (.throw i)).isSome = true ∨
        ∃ l, pc = .getBrowser l ∧ s.launches[l]? = some .pending := by
  have h : Paged s := by
    refine hw.invariant (I := Paged) ?_ fun _ _ _ hi _ hs => paged_step hi hs
    constructor <;> simp [init]
  refine ⟨?_, ?_, ?_⟩
  · intro p page hp hlive
    obtain ⟨i, pc, hi, hheld⟩ := h.owned p page hp hlive
    refine ⟨i, ⟨pc, hi, hheld⟩, ?_⟩
    rintro j ⟨pc', hj, hheld'⟩
    exact h.alone j i pc' pc p hj hi hheld' hheld
  · intro i pc p hi hended hheld
    cases pc <;> simp_all [RenderPc.ended, RenderPc.page]
  · intro i pc hi hopen
    cases pc with
    | getBrowser l =>
        obtain ⟨launch, hl⟩ : ∃ launch, s.launches[l]? = some launch :=
          ⟨_, List.getElem?_eq_getElem (h.waits i l hi)⟩
        cases launch with
        | pending => exact .inr (.inr ⟨l, rfl, hl⟩)
        | resolved b => exact .inl (by simp [step, hi, stepRender, hl])
        | rejected => exact .inl (by simp [step, hi, stepRender, hl])
    | newPage b => exact .inr (.inl (by simp [step, hi, throwRender]))
    | setContent p => exact .inl (by simp [step, hi, stepRender])
    | pdf p => exact .inl (by simp [step, hi, stepRender])
    | close p ok => exact .inl (by simp [step, hi, stepRender])
    | _ => cases hopen

theorem pages_owned_demo :
    ∃ s, Run step anyStep init s ∧ s.pages[0]? = some ⟨0, true⟩ ∧
      ∃! i : ℕ, ∃ pc : RenderPc, s.renders[i]? = some pc ∧ pc.page = some 0 := by
  have hend : (exec step (sharedSchedule.take 6) init).any (fun s =>
      decide (s.pages[0]? = some ⟨0, true⟩)) = true := by decide
  obtain ⟨s, hw, hp⟩ := exec_any hend
  have hpage := of_decide_eq_true hp
  exact ⟨s, hw, hpage, (pages_owned hw).1 0 ⟨0, true⟩ hpage rfl⟩

end FieldNote.PdfRenderer
