import Mathlib.Data.List.Nodup
import Mathlib.Logic.Equiv.Basic
import Mathlib.Tactic.SplitIfs

/-!
# The nonce of a sign-in

`Nonce.random` asks for blocks of 16 random bytes and keeps the bytes that are positions of
its alphabet, until it has enough letters. A byte that is not a position is thrown away, so
no letter is likelier than another: the inputs that lead to one nonce are exchanged with the
inputs that lead to any other of its length by swapping the two letters at each place.
-/
namespace FieldNote.SignInNonce

abbrev Byte := Fin 256

def charset : List Char :=
  "0123456789ABCDEFGHIJKLMNOPQRSTUVWXYZabcdefghijklmnopqrstuvwxyz-._".toList

/-- `byte < charset.count`. -/
def accepts (byte : Byte) : Bool := byte.val < charset.length

def letter (byte : Byte) : Char := charset.getD byte.val ' '

/-- `for byte in randoms where remaining > 0`. -/
def fill (block : List Byte) (result : List Char) (remaining : ℕ) : List Char × ℕ :=
  match block with
  | [] => (result, remaining)
  | byte :: block =>
      if 0 < remaining ∧ accepts byte = true then
        fill block (result ++ [letter byte]) (remaining - 1)
      else fill block result remaining

/-- `Nonce.random` on the blocks that the generator returns; `none` if it asks for more. -/
def random (blocks : List (List Byte)) (result : List Char) (remaining : ℕ) :
    Option (List Char) :=
  match remaining, blocks with
  | 0, _ => some result
  | _ + 1, [] => none
  | remaining + 1, block :: blocks =>
      let (result', remaining') := fill block result (remaining + 1)
      random blocks result' remaining'

/-- The letters that a stream of bytes spells. -/
def letters (bytes : List Byte) : List Char := (bytes.filter accepts).map letter

theorem charset_length : charset.length = 65 := by decide

theorem charset_nodup : charset.Nodup := by decide +kernel

theorem fill_eq (block : List Byte) (result : List Char) (remaining : ℕ) :
    fill block result remaining =
      (result ++ (letters block).take remaining, remaining - (letters block).length) := by
  induction block generalizing result remaining with
  | nil => simp [fill, letters]
  | cons byte block ih =>
      by_cases haccepts : accepts byte = true
      · have hletters : letters (byte :: block) = letter byte :: letters block := by
          simp [letters, haccepts]
        rcases Nat.eq_zero_or_pos remaining with rfl | hpos
        · simp [fill, ih]
        · obtain ⟨n, rfl⟩ : ∃ n, remaining = n + 1 := ⟨remaining - 1, by omega⟩
          simp [fill, haccepts, ih, hletters]
      · have hletters : letters (byte :: block) = letters block := by
          simp [letters, haccepts]
        simp [fill, haccepts, ih, hletters]

theorem letters_append (bytes bytes' : List Byte) :
    letters (bytes ++ bytes') = letters bytes ++ letters bytes' := by
  simp [letters]

/-- The loop ends with the first accepted bytes, once there are enough of them. -/
theorem random_eq (blocks : List (List Byte)) (result : List Char) (remaining : ℕ) :
    random blocks result remaining =
      if remaining ≤ (letters blocks.flatten).length then
        some (result ++ (letters blocks.flatten).take remaining)
      else none := by
  induction blocks generalizing result remaining with
  | nil => cases remaining <;> simp [random, letters]
  | cons block blocks ih =>
      cases remaining with
      | zero => simp [random]
      | succ remaining =>
          have hsplit : letters (block :: blocks).flatten =
              letters block ++ letters blocks.flatten := by
            rw [List.flatten_cons, letters_append]
          have hcount : remaining + 1 - (letters block).length ≤ (letters blocks.flatten).length ↔
              remaining + 1 ≤ (letters block).length + (letters blocks.flatten).length := by omega
          simp only [random, fill_eq, ih, hsplit, List.length_append, List.take_append,
            List.append_assoc, hcount]

/-- Exchanges the letters `x` and `y` at each place of a nonce. -/
def relabel : List Byte → List Byte → List Byte → List Byte
  | x :: xs, y :: ys, byte :: bytes =>
      if accepts byte = true then Equiv.swap x y byte :: relabel xs ys bytes
      else byte :: relabel (x :: xs) (y :: ys) bytes
  | _, _, bytes => bytes

section Relabel

variable {x y byte : Byte} {xs ys bytes : List Byte}

theorem accepts_swap (hx : accepts x = true) (hy : accepts y = true) (hb : accepts byte = true) :
    accepts (Equiv.swap x y byte) = true := by
  rw [Equiv.swap_apply_def]
  split_ifs
  · exact hy
  · exact hx
  · exact hb

theorem length_relabel : (relabel xs ys bytes).length = bytes.length := by
  induction bytes generalizing xs ys with
  | nil => cases xs <;> cases ys <;> rfl
  | cons byte bytes ih =>
      cases xs with
      | nil => rfl
      | cons x xs =>
          cases ys with
          | nil => rfl
          | cons y ys =>
              rw [relabel]
              split_ifs <;> simp [ih]

theorem relabel_relabel (hx : ∀ x ∈ xs, accepts x = true) (hy : ∀ y ∈ ys, accepts y = true) :
    relabel xs ys (relabel xs ys bytes) = bytes := by
  induction bytes generalizing xs ys with
  | nil => cases xs <;> cases ys <;> rfl
  | cons byte bytes ih =>
      cases xs with
      | nil => rfl
      | cons x xs =>
          cases ys with
          | nil => rfl
          | cons y ys =>
              by_cases hb : accepts byte = true
              · have hswap := accepts_swap (hx x (by simp)) (hy y (by simp)) hb
                have hxs : ∀ z ∈ xs, accepts z = true := fun z hz => hx z (by simp [hz])
                have hys : ∀ z ∈ ys, accepts z = true := fun z hz => hy z (by simp [hz])
                simp [relabel, hb, hswap, ih hxs hys]
              · simp [relabel, hb, ih hx hy]

theorem relabel_comm (xs ys bytes : List Byte) : relabel xs ys bytes = relabel ys xs bytes := by
  induction bytes generalizing xs ys with
  | nil => cases xs <;> cases ys <;> rfl
  | cons byte bytes ih => cases xs <;> cases ys <;> simp [relabel, Equiv.swap_comm, ih]

/-- The accepted bytes that start with `xs` are turned into those that start with `ys`. -/
theorem relabel_prefix (hx : ∀ x ∈ xs, accepts x = true) (hy : ∀ y ∈ ys, accepts y = true)
    (hlength : xs.length = ys.length) (h : xs <+: bytes.filter accepts) :
    ys <+: (relabel xs ys bytes).filter accepts := by
  induction bytes generalizing xs ys with
  | nil =>
      have hxs : xs = [] := by simpa using h
      have hys : ys = [] := by simpa [hxs] using hlength.symm
      simp [hys]
  | cons byte bytes ih =>
      cases xs with
      | nil =>
          have hys : ys = [] := by simpa using hlength.symm
          simp [hys]
      | cons x xs =>
          cases ys with
          | nil => cases hlength
          | cons y ys =>
              by_cases hb : accepts byte = true
              · rw [List.filter_cons_of_pos hb, List.cons_prefix_cons] at h
                obtain ⟨rfl, hrest⟩ := h
                have hxs : ∀ z ∈ xs, accepts z = true := fun z hz => hx z (by simp [hz])
                have hys : ∀ z ∈ ys, accepts z = true := fun z hz => hy z (by simp [hz])
                have htail := ih hxs hys (by simpa using hlength) hrest
                simpa [relabel, hb, hy y (by simp)] using htail
              · rw [List.filter_cons_of_neg hb] at h
                have htail := ih hx hy hlength h
                simpa [relabel, hb] using htail

end Relabel

/-- Cuts bytes into blocks of given lengths. -/
def reshape : List (List Byte) → List Byte → List (List Byte)
  | [], _ => []
  | block :: blocks, bytes => bytes.take block.length :: reshape blocks (bytes.drop block.length)

section Reshape

variable {blocks blocks' : List (List Byte)} {bytes : List Byte}

theorem flatten_reshape (h : bytes.length = blocks.flatten.length) :
    (reshape blocks bytes).flatten = bytes := by
  induction blocks generalizing bytes with
  | nil => simpa [reshape] using h
  | cons block blocks ih =>
      have hrest : (bytes.drop block.length).length = blocks.flatten.length := by
        simp only [List.flatten_cons, List.length_append] at h
        rw [List.length_drop]
        omega
      simp [reshape, ih hrest]

theorem lengths_reshape (h : bytes.length = blocks.flatten.length) :
    (reshape blocks bytes).map List.length = blocks.map List.length := by
  induction blocks generalizing bytes with
  | nil => rfl
  | cons block blocks ih =>
      simp only [List.flatten_cons, List.length_append] at h
      have hrest : (bytes.drop block.length).length = blocks.flatten.length := by
        rw [List.length_drop]
        omega
      have hfirst : min block.length bytes.length = block.length := by omega
      simp [reshape, ih hrest, hfirst]

theorem reshape_congr (h : blocks.map List.length = blocks'.map List.length) :
    reshape blocks bytes = reshape blocks' bytes := by
  induction blocks generalizing blocks' bytes with
  | nil =>
      have hnil : blocks' = [] := by simpa using h.symm
      rw [hnil]
  | cons block blocks ih =>
      cases blocks' with
      | nil => cases h
      | cons block' blocks' =>
          simp only [List.map_cons, List.cons.injEq] at h
          simp only [reshape, h.1, ih h.2]

theorem reshape_flatten (blocks : List (List Byte)) : reshape blocks blocks.flatten = blocks := by
  induction blocks with
  | nil => rfl
  | cons block blocks ih => simp [reshape, ih]

end Reshape

/-- The input that leads to the nonce of `ys` where `blocks` leads to that of `xs`. -/
def exchange (xs ys : List Byte) (blocks : List (List Byte)) : List (List Byte) :=
  reshape blocks (relabel xs ys blocks.flatten)

theorem flatten_exchange (xs ys : List Byte) (blocks : List (List Byte)) :
    (exchange xs ys blocks).flatten = relabel xs ys blocks.flatten :=
  flatten_reshape length_relabel

theorem letter_injective {x y : Byte} (hx : accepts x = true) (hy : accepts y = true)
    (h : letter x = letter y) : x = y := by
  have hx' : x.val < charset.length := by simpa [accepts] using hx
  have hy' : y.val < charset.length := by simpa [accepts] using hy
  have hget {z : Byte} (hz : z.val < charset.length) : letter z = charset[z.val] := by
    simp [letter, hz]
  rw [hget hx', hget hy'] at h
  exact Fin.ext ((charset_nodup.getElem_inj_iff).mp h)

theorem map_letter_injective {xs ys : List Byte} (hx : ∀ x ∈ xs, accepts x = true)
    (hy : ∀ y ∈ ys, accepts y = true) (h : xs.map letter = ys.map letter) : xs = ys := by
  induction xs generalizing ys with
  | nil => simpa using h.symm
  | cons x xs ih =>
      cases ys with
      | nil => cases h
      | cons y ys =>
          simp only [List.map_cons, List.cons.injEq] at h
          have hhead := letter_injective (hx x (by simp)) (hy y (by simp)) h.1
          have hxs : ∀ z ∈ xs, accepts z = true := fun z hz => hx z (by simp [hz])
          have hys : ∀ z ∈ ys, accepts z = true := fun z hz => hy z (by simp [hz])
          rw [hhead, ih hxs hys h.2]

/-- A text over the alphabet is spelled by accepted bytes. -/
theorem spelled {s : List Char} (h : ∀ c ∈ s, c ∈ charset) :
    ∃ xs : List Byte, xs.map letter = s ∧ ∀ x ∈ xs, accepts x = true := by
  induction s with
  | nil => exact ⟨[], rfl, by simp⟩
  | cons c s ih =>
      obtain ⟨xs, hxs, hacc⟩ := ih fun d hd => h d (by simp [hd])
      obtain ⟨i, hi, hget⟩ := List.mem_iff_getElem.mp (h c (by simp))
      have hbound : i < 256 := by
        rw [charset_length] at hi
        omega
      refine ⟨⟨i, hbound⟩ :: xs, ?_, ?_⟩
      · simp [hxs, letter, List.getElem?_eq_getElem hi, hget]
      · intro x hx
        rcases List.mem_cons.mp hx with rfl | hx
        · simpa [accepts] using hi
        · exact hacc x hx

/-- Which inputs lead to a nonce. -/
theorem random_iff {xs : List Byte} (hacc : ∀ x ∈ xs, accepts x = true)
    (blocks : List (List Byte)) :
    random blocks [] xs.length = some (xs.map letter) ↔
      xs <+: blocks.flatten.filter accepts := by
  have hmap : (letters blocks.flatten).take xs.length =
      ((blocks.flatten.filter accepts).take xs.length).map letter := by
    rw [letters, List.map_take]
  rw [random_eq, List.prefix_iff_eq_take]
  constructor
  · intro h
    split_ifs at h
    rw [List.nil_append, hmap, Option.some.injEq] at h
    refine (map_letter_injective ?_ hacc h).symm
    intro x hx
    exact (List.mem_filter.mp (List.mem_of_mem_take hx)).2
  · intro h
    have hlength : xs.length ≤ (letters blocks.flatten).length := by
      have := congrArg List.length h
      rw [List.length_take] at this
      simp only [letters, List.length_map]
      omega
    rw [if_pos hlength, List.nil_append, hmap, ← h]

/-- No nonce is likelier than another: the inputs of one and of the other are exchanged by
an involution that keeps the length of every block. -/
theorem nonce_uniform {s s' : List Char} (hs : ∀ c ∈ s, c ∈ charset)
    (hs' : ∀ c ∈ s', c ∈ charset) (hlength : s.length = s'.length) :
    ∃ f : List (List Byte) → List (List Byte),
      (∀ blocks, f (f blocks) = blocks) ∧
      (∀ blocks, (f blocks).map List.length = blocks.map List.length) ∧
      ∀ blocks, random blocks [] s.length = some s ↔
        random (f blocks) [] s'.length = some s' := by
  obtain ⟨xs, rfl, hxs⟩ := spelled hs
  obtain ⟨ys, rfl, hys⟩ := spelled hs'
  have hxy : xs.length = ys.length := by simpa using hlength
  have hlengths (blocks : List (List Byte)) :
      (exchange xs ys blocks).map List.length = blocks.map List.length :=
    lengths_reshape length_relabel
  have hinvolutive (blocks : List (List Byte)) :
      exchange xs ys (exchange xs ys blocks) = blocks := by
    rw [exchange, flatten_exchange, relabel_relabel hxs hys, reshape_congr (hlengths blocks),
      reshape_flatten]
  refine ⟨exchange xs ys, hinvolutive, hlengths, ?_⟩
  intro blocks
  rw [List.length_map, List.length_map, random_iff hxs, random_iff hys, flatten_exchange]
  constructor
  · exact relabel_prefix hxs hys hxy
  · intro h
    have hback := relabel_prefix hys hxs hxy.symm h
    rwa [relabel_comm ys xs, relabel_relabel hxs hys] at hback

theorem letters_of_contains {s : List Char} (h : s.all (fun c => charset.contains c) = true) :
    ∀ c ∈ s, c ∈ charset := by
  simpa using h

/-- A letter and a digit of the first nonce against the two ends of the alphabet. -/
theorem nonce_uniform_demo :
    ∃ f : List (List Byte) → List (List Byte),
      (∀ blocks, f (f blocks) = blocks) ∧
      (∀ blocks, (f blocks).map List.length = blocks.map List.length) ∧
      ∀ blocks, random blocks [] ['k', '7'].length = some ['k', '7'] ↔
        random (f blocks) [] ['0', '_'].length = some ['0', '_'] :=
  nonce_uniform (letters_of_contains (by decide)) (letters_of_contains (by decide)) rfl

end FieldNote.SignInNonce
