import Mathlib.Data.List.Basic

/-!
# Templates of markup and a reader for them

A template is a list of literals and holes. A document is scanned character by character into
tags and single characters of text, and a second machine collects the text that follows the
tags it is asked for. Text without `<` put into the holes between complete tags changes no tag.
-/
namespace FieldNote.MarkupTemplates

section Machines
variable {σ α β : Type*} (step : σ → α → List β × σ)

/-- What a machine writes while it reads a list. -/
def out : σ → List α → List β
  | _, [] => []
  | s, a :: as => (step s a).1 ++ out (step s a).2 as

/-- The state of a machine that has read a list. -/
def final : σ → List α → σ
  | s, [] => s
  | s, a :: as => final (step s a).2 as

theorem out_append (s : σ) (as bs : List α) :
    out step s (as ++ bs) = out step s as ++ out step (final step s as) bs := by
  induction as generalizing s with
  | nil => rfl
  | cons a as ih => simp only [List.cons_append, out, final, ih, List.append_assoc]

theorem final_append (s : σ) (as bs : List α) :
    final step s (as ++ bs) = final step (final step s as) bs := by
  induction as generalizing s with
  | nil => rfl
  | cons a as ih => exact ih _

end Machines

/-- A complete tag, or a character of text. -/
inductive Token where
  | tag (name : List Char)
  | char (c : Char)
deriving DecidableEq, Repr

/-- One character, read in text or inside a tag. -/
def scan : Option (List Char) → Char → List Token × Option (List Char)
  | none, c => if c = '<' then ([], some []) else ([.char c], none)
  | some t, c => if c = '>' then ([.tag t], none) else ([], some (t ++ [c]))

/-- The tokens of a document. -/
def tokens (s : String) : List Token := out scan none s.toList

/-- A tag that is asked for, and the text after it so far. -/
abbrev Element := List Char × List Char

/-- One token; the text of an element ends with the next tag. -/
def collect (p : List Char → Bool) : Option Element → Token → List (String × String) × Option Element
  | none, .char _ => ([], none)
  | some (t, w), .char c => ([], some (t, w ++ [c]))
  | none, .tag t => ([], if p t then some (t, []) else none)
  | some (t, w), .tag t' =>
      ([(String.ofList t, String.ofList w)], if p t' then some (t', []) else none)

/-- The tags of a document that are asked for, each with the text up to the next tag. -/
def elements (p : List Char → Bool) (s : String) : List (String × String) :=
  out (collect p) none (tokens s)

/-- The tags of a document. -/
def tags (s : String) : List (List Char) :=
  (tokens s).filterMap fun
    | .tag t => some t
    | .char _ => none

/-- The text ends outside tags. -/
def Closed (s : String) : Prop := final scan none s.toList = none

def Without (d : Char) (s : String) : Prop := ∀ c ∈ s.toList, c ≠ d

/-- The text opens no tag. -/
abbrev Plain (s : String) : Prop := Without '<' s

/-- Literals, and holes for text. -/
abbrev Template := List (Option String)

/-- The holes filled in their order. -/
def fill : Template → List String → String
  | [], _ => ""
  | some s :: t, xs => s ++ fill t xs
  | none :: t, x :: xs => x ++ fill t xs
  | none :: t, [] => fill t []

def holes (t : Template) : ℕ := t.countP Option.isNone

/-- The tags of the literals of a template. -/
def templateTags (t : Template) : List (List Char) := t.flatMap fun piece => (piece.map tags).getD []

/-- Every literal ends outside tags. -/
def AllClosed (t : Template) : Prop := ∀ s, some s ∈ t → Closed s

variable {d : Char} {s s' x : String} {t t' : Template} {xs ys : List String}

theorem scan_plain {w : List Char} (h : ∀ c ∈ w, c ≠ '<') :
    out scan none w = w.map Token.char ∧ final scan none w = none := by
  induction w with
  | nil => exact ⟨rfl, rfl⟩
  | cons c w ih =>
      obtain ⟨hout, hfinal⟩ := ih fun d hd => h d (List.mem_cons_of_mem c hd)
      have hc : scan none c = ([.char c], none) := if_neg (h c List.mem_cons_self)
      exact ⟨by simp only [out, hc, hout, List.map_cons, List.singleton_append],
        by simp only [final, hc, hfinal]⟩

theorem scan_inside {w : List Char} (name : List Char) (h : ∀ c ∈ w, c ≠ '>') :
    out scan (some name) w = [] ∧ final scan (some name) w = some (name ++ w) := by
  induction w generalizing name with
  | nil => exact ⟨rfl, by simp only [final, List.append_nil]⟩
  | cons c w ih =>
      obtain ⟨hout, hfinal⟩ := ih (name ++ [c]) fun d hd => h d (List.mem_cons_of_mem c hd)
      have hc : scan (some name) c = ([], some (name ++ [c])) := if_neg (h c List.mem_cons_self)
      exact ⟨by simp only [out, hc, hout, List.nil_append],
        by simp only [final, hc, hfinal, List.append_assoc, List.singleton_append]⟩

theorem closed_of_plain (h : Plain s) : Closed s := (scan_plain h).2

theorem Without.append (h : Without d s) (h' : Without d s') : Without d (s ++ s') := by
  intro c hc
  rw [String.toList_append, List.mem_append] at hc
  exact hc.elim (h c) (h' c)

theorem Without.join {ss : List String} (h : ∀ s ∈ ss, Without d s) : Without d (String.join ss) := by
  intro c hc
  rw [String.toList_join, List.mem_flatMap] at hc
  obtain ⟨s, hs, hc⟩ := hc
  exact h s hs c hc

theorem Without.literal (l : List Char) (h : (l.all fun c => c != d) = true) :
    Without d (String.ofList l) := by
  intro c hc
  rw [String.toList_ofList] at hc
  simpa using List.all_eq_true.mp h c hc

theorem Closed.literal (l : List Char) (h : final scan none l = none) :
    Closed (String.ofList l) := by
  rw [Closed, String.toList_ofList, h]

theorem tags_append (h : Closed s) (s' : String) : tags (s ++ s') = tags s ++ tags s' := by
  rw [tags, tokens, String.toList_append, out_append, h, List.filterMap_append]
  rfl

theorem tags_plain (h : Plain s) : tags s = [] := by
  rw [tags, tokens, (scan_plain h).1, List.filterMap_map, List.filterMap_eq_nil_iff]
  exact fun _ _ => rfl

theorem fill_append (h : holes t = xs.length) (t' : Template) (ys : List String) :
    fill (t ++ t') (xs ++ ys) = fill t xs ++ fill t' ys := by
  induction t generalizing xs with
  | nil =>
      obtain rfl : xs = [] := List.eq_nil_of_length_eq_zero h.symm
      simp only [List.nil_append, fill, String.empty_append]
  | cons piece t ih =>
      cases piece with
      | some s =>
          have hrest : holes t = xs.length := h
          simp only [List.cons_append, fill, ih hrest, String.append_assoc]
      | none =>
          cases xs with
          | nil => simp [holes] at h
          | cons x xs =>
              have hrest : holes t = xs.length := by simpa [holes] using h
              simp only [List.cons_append, fill, ih hrest, String.append_assoc]

theorem holes_append (t t' : Template) : holes (t ++ t') = holes t + holes t' :=
  List.countP_append

/-- Templates that are joined by a literal, each filled with texts of its own. -/
theorem fill_join {ι : Type*} (sep : String) (template : ι → Template) (texts : ι → List String)
    (h : ∀ i, holes (template i) = (texts i).length) (is : List ι) :
    fill (List.intercalate [some sep] (is.map template)) (is.flatMap texts) =
        sep.intercalate (is.map fun i => fill (template i) (texts i)) ∧
      holes (List.intercalate [some sep] (is.map template)) = (is.flatMap texts).length := by
  induction is with
  | nil => exact ⟨by simp [fill], by simp [holes]⟩
  | cons i is ih =>
      cases is with
      | nil => exact ⟨by simp, by simp [h]⟩
      | cons j js =>
          obtain ⟨hfill, hholes⟩ := ih
          have hsplit : List.intercalate [some sep] ((i :: j :: js).map template) =
              template i ++ (some sep :: List.intercalate [some sep] ((j :: js).map template)) := by
            simp
          have htexts : (i :: j :: js).flatMap texts = texts i ++ (j :: js).flatMap texts := rfl
          rw [hsplit, htexts]
          constructor
          · rw [fill_append (h i)]
            simp only [fill, hfill]
            simp [String.append_assoc]
          · rw [holes_append, h i, List.length_append, ← hholes]
            rfl

theorem AllClosed.nil : AllClosed [] := fun _ hs => by cases hs

theorem AllClosed.literal (h : Closed s) (ht : AllClosed t) : AllClosed (some s :: t) := by
  intro s' hs'
  rcases List.mem_cons.mp hs' with heq | hmem
  · cases heq
    exact h
  · exact ht s' hmem

theorem AllClosed.hole (ht : AllClosed t) : AllClosed (none :: t) := by
  intro s hs
  rcases List.mem_cons.mp hs with heq | hmem
  · cases heq
  · exact ht s hmem

theorem AllClosed.append (ht : AllClosed t) (ht' : AllClosed t') : AllClosed (t ++ t') :=
  fun s hs => (List.mem_append.mp hs).elim (ht s) (ht' s)

theorem AllClosed.join {ι : Type*} {sep : String} (hsep : Closed sep) {template : ι → Template}
    (h : ∀ i, AllClosed (template i)) (is : List ι) :
    AllClosed (List.intercalate [some sep] (is.map template)) := by
  induction is with
  | nil => exact .nil
  | cons i is ih =>
      cases is with
      | nil => simpa using h i
      | cons j js =>
          have hjoined := (h i).append (ih.literal hsep)
          simpa using hjoined

/-- Text without tags in the holes changes no tag. -/
theorem tags_fill (ht : AllClosed t) (hxs : ∀ x ∈ xs, Plain x) :
    tags (fill t xs) = templateTags t := by
  induction t generalizing xs with
  | nil => rfl
  | cons piece t ih =>
      have hrest : AllClosed t := fun s hs => ht s (List.mem_cons_of_mem piece hs)
      cases piece with
      | some s =>
          rw [fill, tags_append (ht s List.mem_cons_self), ih hrest hxs]
          rfl
      | none =>
          cases xs with
          | nil => exact ih hrest hxs
          | cons x xs =>
              have hx : Plain x := hxs x List.mem_cons_self
              rw [fill, tags_append (closed_of_plain hx), tags_plain hx,
                ih hrest fun y hy => hxs y (List.mem_cons_of_mem x hy)]
              rfl

/-- The two machines at work. -/
structure Reader where
  inside : Option (List Char) := none
  element : Option Element := none

/-- Reading `s` takes the machines from `r` to `r'` and yields these elements. -/
structure Reads (p : List Char → Bool) (r : Reader) (s : String) (es : List (String × String))
    (r' : Reader) : Prop where
  inside : final scan r.inside s.toList = r'.inside
  yields : out (collect p) r.element (out scan r.inside s.toList) = es
  leaves : final (collect p) r.element (out scan r.inside s.toList) = r'.element

variable {p : List Char → Bool} {r r' r'' : Reader} {es es' : List (String × String)}

theorem Reads.append (h : Reads p r s es r') (h' : Reads p r' s' es' r'') :
    Reads p r (s ++ s') (es ++ es') r'' := by
  constructor
  · rw [String.toList_append, final_append, h.inside, h'.inside]
  · rw [String.toList_append, out_append, h.inside, out_append, h.yields, h.leaves, h'.yields]
  · rw [String.toList_append, out_append, h.inside, final_append, h.leaves, h'.leaves]

/-- A literal is read by evaluation. -/
theorem Reads.literal (p : List Char → Bool) (r : Reader) (l : List Char) :
    Reads p r (String.ofList l) (out (collect p) r.element (out scan r.inside l))
      ⟨final scan r.inside l, final (collect p) r.element (out scan r.inside l)⟩ := by
  constructor <;> rw [String.toList_ofList]

theorem collect_chars (w : List Char) (e : Option Element) :
    out (collect p) e (w.map Token.char) = [] ∧
      final (collect p) e (w.map Token.char) = e.map fun f => (f.1, f.2 ++ w) := by
  induction w generalizing e with
  | nil => cases e <;> exact ⟨rfl, by simp [final]⟩
  | cons c w ih =>
      cases e with
      | none =>
          obtain ⟨hout, hfinal⟩ := ih none
          exact ⟨hout, hfinal⟩
      | some f =>
          obtain ⟨hout, hfinal⟩ := ih (some (f.1, f.2 ++ [c]))
          refine ⟨hout, hfinal.trans ?_⟩
          simp

/-- Text is added to the element that is open. -/
theorem Reads.plain (h : Plain x) (e : Option Element) :
    Reads p ⟨none, e⟩ x [] ⟨none, e.map fun f => (f.1, f.2 ++ x.toList)⟩ := by
  obtain ⟨hout, hfinal⟩ := scan_plain h
  obtain ⟨hes, he⟩ := collect_chars (p := p) x.toList e
  exact ⟨hfinal, by rw [hout]; exact hes, by rw [hout]; exact he⟩

/-- A part of a tag. -/
theorem Reads.inTag (h : Without '>' x) (name : List Char) (e : Option Element) :
    Reads p ⟨some name, e⟩ x [] ⟨some (name ++ x.toList), e⟩ := by
  obtain ⟨hout, hfinal⟩ := scan_inside name h
  exact ⟨hfinal, by rw [hout]; rfl, by rw [hout]; rfl⟩

/-- Texts that are read from nothing to nothing, joined by one that yields nothing. -/
theorem Reads.join {ι : Type*} {sep : String} (hsep : Reads p {} sep [] {}) {text : ι → String}
    {yields : ι → List (String × String)} (h : ∀ i, Reads p {} (text i) (yields i) {})
    (is : List ι) : Reads p {} (sep.intercalate (is.map text)) (is.flatMap yields) {} := by
  induction is with
  | nil => exact Reads.literal p {} []
  | cons i is ih =>
      cases is with
      | nil => simpa using h i
      | cons j js =>
          have hjoined := ((h i).append hsep).append ih
          rw [List.append_nil, List.map_cons, ← String.intercalate_cons_cons] at hjoined
          exact hjoined

/-- A tag with the text up to the next tag. -/
def element (name text close : String) : String :=
  "<" ++ name ++ ">" ++ text ++ "<" ++ close ++ ">"

theorem Reads.tag {name : String} (h : Without '>' name) (e : Option Element) :
    Reads p ⟨none, e⟩ ("<" ++ name ++ ">")
      (e.toList.map fun f => (String.ofList f.1, String.ofList f.2))
      ⟨none, if p name.toList then some (name.toList, []) else none⟩ := by
  have hopen : Reads p ⟨none, e⟩ "<" [] ⟨some [], e⟩ := Reads.literal p _ _
  have hclose : Reads p ⟨some name.toList, e⟩ ">"
      (e.toList.map fun f => (String.ofList f.1, String.ofList f.2))
      ⟨none, if p name.toList then some (name.toList, []) else none⟩ := by
    cases e <;> exact Reads.literal p _ ['>']
  have hread := (hopen.append (Reads.inTag h [] e)).append hclose
  simpa using hread

/-- An element that is asked for, up to and with a tag that is not. -/
theorem Reads.element {name text close : String} (hname : Without '>' name)
    (hp : p name.toList = true) (htext : Plain text) (hclose : Without '>' close)
    (hp' : p close.toList = false) : Reads p {} (element name text close) [(name, text)] {} := by
  have hopen := Reads.tag (p := p) hname none
  rw [if_pos hp] at hopen
  have hread := (hopen.append (Reads.plain htext _)).append (Reads.tag hclose _)
  rw [hp'] at hread
  simpa [MarkupTemplates.element, String.append_assoc] using hread

/-- Texts that are read from nothing to nothing, one after the other. -/
theorem Reads.concat {ι : Type*} {text : ι → String} {yields : ι → List (String × String)}
    (h : ∀ i, Reads p {} (text i) (yields i) {}) (is : List ι) :
    Reads p {} (String.join (is.map text)) (is.flatMap yields) {} := by
  induction is with
  | nil => exact Reads.literal p {} []
  | cons i is ih =>
      rw [List.map_cons, String.join_cons]
      exact (h i).append ih

/-- Text outside the elements that are asked for. -/
theorem Reads.skip (h : Plain x) : Reads p {} x [] {} := Reads.plain h none

theorem Reads.elements_eq (h : Reads p {} s es r) : elements p s = es := h.yields

end FieldNote.MarkupTemplates
