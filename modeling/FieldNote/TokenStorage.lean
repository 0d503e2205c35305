import FieldNote.APIClient
import FieldNote.JsonFields
import Mathlib.Logic.Function.Basic

/-!
# Token storage

`KeychainTokenStorage` keeps the token pair as one JSON blob in one generic password item,
`InMemoryTokenStorage` is the double that the client is tested with. The keychain is the
system's: its four calls are parameters, with what their result codes promise about the items.
Any call may fail, because the device is locked or for another reason. Access groups and the
other classes of items are left out.
-/
namespace FieldNote.TokenStorage
open APIClient GuardedRuns Json

inductive OSStatus where
  | errSecSuccess
  | errSecItemNotFound
  | errSecDuplicateItem
  | errSec (code : ℤ)
deriving DecidableEq, Repr

inductive Accessible where
  | afterFirstUnlockThisDeviceOnly
  | other (value : String)
deriving DecidableEq, Repr

/-- What identifies a generic password item. -/
structure Key where
  service : String
  account : String
deriving DecidableEq, Repr

structure Attributes where
  valueData : ByteArray
  accessible : Accessible

structure Keychain (σ : Type) where
  secItemCopyMatching : σ → Key → OSStatus × Option ByteArray
  secItemUpdate : σ → Key → Attributes → OSStatus × σ
  secItemAdd : σ → Key → Attributes → OSStatus × σ
  secItemDelete : σ → Key → OSStatus × σ

/-- The result codes tell what a call has done to the items. -/
structure Keychain.Documented {σ : Type} (K : Keychain σ) (find : σ → Key → Option Attributes) :
    Prop where
  copied : ∀ s k, (K.secItemCopyMatching s k).1 = .errSecSuccess →
    ∃ item, find s k = some item ∧ (K.secItemCopyMatching s k).2 = some item.valueData
  copy_missing : ∀ s k, (K.secItemCopyMatching s k).1 = .errSecItemNotFound → find s k = none
  updated : ∀ s k item, (K.secItemUpdate s k item).1 = .errSecSuccess →
    find (K.secItemUpdate s k item).2 = Function.update (find s) k (some item)
  update_missing : ∀ s k item, (K.secItemUpdate s k item).1 = .errSecItemNotFound →
    find s k = none
  update_failed : ∀ s k item, (K.secItemUpdate s k item).1 ≠ .errSecSuccess →
    find (K.secItemUpdate s k item).2 = find s
  added : ∀ s k item, (K.secItemAdd s k item).1 = .errSecSuccess →
    find (K.secItemAdd s k item).2 = Function.update (find s) k (some item)
  add_failed : ∀ s k item, (K.secItemAdd s k item).1 ≠ .errSecSuccess →
    find (K.secItemAdd s k item).2 = find s
  deleted : ∀ s k, (K.secItemDelete s k).1 = .errSecSuccess →
    find (K.secItemDelete s k).2 = Function.update (find s) k none
  delete_missing : ∀ s k, (K.secItemDelete s k).1 = .errSecItemNotFound → find s k = none
  delete_failed : ∀ s k, (K.secItemDelete s k).1 ≠ .errSecSuccess →
    find (K.secItemDelete s k).2 = find s

section Coding

def pairJson (pair : TokenPair) : Json :=
  .object [("accessToken", .string pair.accessToken),
    ("refreshToken", .string pair.refreshToken), ("userId", .string pair.userId)]

def readPair (j : Json) : Option TokenPair := do
  let accessToken ← field "accessToken" asString j
  let refreshToken ← field "refreshToken" asString j
  let userId ← field "userId" asString j
  some ⟨accessToken, refreshToken, userId⟩

/-- `JSONEncoder().encode(pair)`. -/
def encode (pair : TokenPair) : ByteArray := ((pairJson pair).stringify true).toUTF8

/-- `try? JSONDecoder().decode(TokenPair.self, from: data)`. -/
def decode (data : ByteArray) : Option TokenPair :=
  ((String.fromUTF8? data).bind parse).bind readPair

theorem utf8_read_back (s : String) : String.fromUTF8? s.toUTF8 = some s := by
  have hvalid : s.toUTF8.IsValidUTF8 := s.isValidUTF8
  rw [String.fromUTF8?, dif_pos hvalid]
  rfl

@[simp] theorem decode_encode (pair : TokenPair) : decode (encode pair) = some pair := by
  have hwell : (pairJson pair).WellFormed := by simp [pairJson]
  rw [decode, encode, utf8_read_back, Option.bind_some, parse_stringify true hwell,
    Option.bind_some]
  simp [readPair, pairJson, member]

end Coding

/-- A storage is its item's service and account. -/
structure KeychainTokenStorage where
  service : String := "com.viralventures.fieldnote.tokens"
  account : String := "session"

namespace KeychainTokenStorage

variable {σ : Type} (storage : KeychainTokenStorage) (K : Keychain σ)

def baseQuery : Key := ⟨storage.service, storage.account⟩

def load (s : σ) : Option TokenPair :=
  match K.secItemCopyMatching s storage.baseQuery with
  | (.errSecSuccess, some data) => decode data
  | _ => none

def attributes (pair : TokenPair) : Attributes :=
  ⟨encode pair, .afterFirstUnlockThisDeviceOnly⟩

/-- The last result code of a save, which the code drops, and the keychain after it. -/
def saveItem (s : σ) (pair : TokenPair) : OSStatus × σ :=
  let updated := K.secItemUpdate s storage.baseQuery (attributes pair)
  if updated.1 = .errSecItemNotFound then
    K.secItemAdd updated.2 storage.baseQuery (attributes pair)
  else updated

def save (s : σ) (pair : TokenPair) : σ := (storage.saveItem K s pair).2

def clear (s : σ) : σ := (K.secItemDelete s storage.baseQuery).2

end KeychainTokenStorage

namespace InMemoryTokenStorage

def load (pair : Option TokenPair) : Option TokenPair := pair

def save (_ : Option TokenPair) (pair : TokenPair) : Option TokenPair := some pair

def clear (_ : Option TokenPair) : Option TokenPair := none

end InMemoryTokenStorage

section Lockstep

variable {σ : Type}

/-- A call on the storage, or a change that the system or another program makes. -/
inductive Action (σ : Type) where
  | save (pair : TokenPair)
  | clear
  | world (s : σ)

/-- The two storages side by side. -/
structure Twin (σ : Type) where
  keychain : σ
  memory : Option TokenPair

/-- The double makes the calls that the keychain does not fail. -/
def step (storage : KeychainTokenStorage) (K : Keychain σ) (t : Twin σ) :
    Action σ → Option (Twin σ)
  | .save pair =>
      some ⟨storage.save K t.keychain pair,
        if (storage.saveItem K t.keychain pair).1 = .errSecSuccess then
          InMemoryTokenStorage.save t.memory pair
        else t.memory⟩
  | .clear =>
      let status := (K.secItemDelete t.keychain storage.baseQuery).1
      some ⟨storage.clear K t.keychain,
        if status = .errSecSuccess ∨ status = .errSecItemNotFound then
          InMemoryTokenStorage.clear t.memory
        else t.memory⟩
  | .world s => some ⟨s, t.memory⟩

/-- Nobody else touches the storage's own item. -/
def Guard (storage : KeychainTokenStorage) (find : σ → Key → Option Attributes) (t : Twin σ) :
    Action σ → Prop
  | .world s => find s storage.baseQuery = find t.keychain storage.baseQuery
  | _ => True

variable {storage : KeychainTokenStorage} {K : Keychain σ} {find : σ → Key → Option Attributes}

/-- The pair in the storage's item. -/
def stored (storage : KeychainTokenStorage) (find : σ → Key → Option Attributes) (s : σ) :
    Option TokenPair :=
  (find s storage.baseQuery).bind fun item => decode item.valueData

/-- A save either writes the item or changes nothing. -/
theorem save_spec (storage : KeychainTokenStorage) (hK : K.Documented find) (s : σ) (pair : TokenPair) :
    find (storage.save K s pair) =
      if (storage.saveItem K s pair).1 = .errSecSuccess then
        Function.update (find s) storage.baseQuery
          (some (KeychainTokenStorage.attributes pair))
      else find s := by
  have hupdate := hK.update_failed s storage.baseQuery (KeychainTokenStorage.attributes pair)
  unfold KeychainTokenStorage.save KeychainTokenStorage.saveItem
  dsimp only
  by_cases hmissing :
      (K.secItemUpdate s storage.baseQuery (KeychainTokenStorage.attributes pair)).1 =
        .errSecItemNotFound
  · have hsame := hupdate (by rw [hmissing]; decide)
    rw [if_pos hmissing, ← hsame]
    split_ifs with hadd
    · exact hK.added _ _ _ hadd
    · exact hK.add_failed _ _ _ hadd
  · rw [if_neg hmissing]
    split_ifs with hsuccess
    · exact hK.updated _ _ _ hsuccess
    · exact hupdate hsuccess

/-- A clear either leaves no item or changes nothing. -/
theorem clear_spec (storage : KeychainTokenStorage) (hK : K.Documented find) (s : σ) :
    find (storage.clear K s) =
      if (K.secItemDelete s storage.baseQuery).1 = .errSecSuccess ∨
          (K.secItemDelete s storage.baseQuery).1 = .errSecItemNotFound then
        Function.update (find s) storage.baseQuery none
      else find s := by
  unfold KeychainTokenStorage.clear
  by_cases hsuccess : (K.secItemDelete s storage.baseQuery).1 = .errSecSuccess
  · rw [if_pos (.inl hsuccess)]
    exact hK.deleted _ _ hsuccess
  · rw [hK.delete_failed _ _ hsuccess]
    split_ifs with hdone
    · have hnone := hK.delete_missing _ _ (hdone.resolve_left hsuccess)
      rw [← hnone, Function.update_eq_self]
    · rfl

/-- The keychain agrees with the double, and its item is the one it had, none, or the blob of a
pair that only this device reads and only once it was unlocked. -/
structure Agrees (storage : KeychainTokenStorage) (find : σ → Key → Option Attributes) (s : σ)
    (t : Twin σ) : Prop where
  memory : stored storage find t.keychain = t.memory
  item : find t.keychain storage.baseQuery = find s storage.baseQuery ∨
    find t.keychain storage.baseQuery = none ∨
      ∃ pair, find t.keychain storage.baseQuery = some (KeychainTokenStorage.attributes pair)

theorem agrees_step (hK : K.Documented find) {s : σ} {t u : Twin σ} {a : Action σ}
    (h : Agrees storage find s t) (hg : Guard storage find t a)
    (hs : step storage K t a = some u) : Agrees storage find s u := by
  cases a with
  | save pair =>
      cases hs
      have hspec := congrFun (save_spec storage hK t.keychain pair) storage.baseQuery
      split_ifs at hspec with hsuccess
      · rw [Function.update_self] at hspec
        refine ⟨?_, .inr (.inr ⟨pair, hspec⟩)⟩
        simp only [stored, hspec, if_pos hsuccess, InMemoryTokenStorage.save, Option.bind_some,
          KeychainTokenStorage.attributes, decode_encode]
      · refine ⟨?_, hspec ▸ h.item⟩
        simpa only [stored, hspec, if_neg hsuccess] using h.memory
  | clear =>
      cases hs
      have hspec := congrFun (clear_spec storage hK t.keychain) storage.baseQuery
      split_ifs at hspec with hdone
      · rw [Function.update_self] at hspec
        refine ⟨?_, .inr (.inl hspec)⟩
        simp only [stored, hspec, if_pos hdone, InMemoryTokenStorage.clear, Option.bind_none]
      · refine ⟨?_, hspec ▸ h.item⟩
        simpa only [stored, hspec, if_neg hdone] using h.memory
  | world s' =>
      cases hs
      have hsame : find s' storage.baseQuery = find t.keychain storage.baseQuery := hg
      refine ⟨?_, hsame ▸ h.item⟩
      simpa only [stored, hsame] using h.memory

/-- What a load gives, by its result code. -/
theorem load_spec (hK : K.Documented find) (s : σ) :
    storage.load K s =
      if (K.secItemCopyMatching s storage.baseQuery).1 = .errSecSuccess ∨
          (K.secItemCopyMatching s storage.baseQuery).1 = .errSecItemNotFound then
        stored storage find s
      else none := by
  unfold KeychainTokenStorage.load
  cases hcopy : K.secItemCopyMatching s storage.baseQuery with
  | mk status data =>
      have hfound := hK.copied s storage.baseQuery
      have hmissing := hK.copy_missing s storage.baseQuery
      rw [hcopy] at hfound hmissing
      cases status with
      | errSecSuccess =>
          obtain ⟨item, hitem, hdata⟩ := hfound rfl
          dsimp only at hdata
          subst hdata
          simp [stored, hitem]
      | errSecItemNotFound => simp [stored, hmissing rfl]
      | errSecDuplicateItem => simp
      | errSec code => simp

/-- Over every sequence of saves and clears, among which the system may fail any call and other
programs may change their own items, a load gives what the double gives, or nil when it fails;
no call touches another item. -/
theorem keychain_refines (hK : K.Documented find) {s : σ} {t : Twin σ}
    (h : Run (step storage K) (Guard storage find) ⟨s, stored storage find s⟩ t) :
    storage.load K t.keychain =
        (if (K.secItemCopyMatching t.keychain storage.baseQuery).1 = .errSecSuccess ∨
            (K.secItemCopyMatching t.keychain storage.baseQuery).1 = .errSecItemNotFound then
          InMemoryTokenStorage.load t.memory
        else none) ∧
      (find t.keychain storage.baseQuery = find s storage.baseQuery ∨
        find t.keychain storage.baseQuery = none ∨
          ∃ pair, find t.keychain storage.baseQuery =
            some ⟨encode pair, .afterFirstUnlockThisDeviceOnly⟩) ∧
        ∀ k ≠ storage.baseQuery, ∀ pair,
          find (storage.save K t.keychain pair) k = find t.keychain k ∧
            find (storage.clear K t.keychain) k = find t.keychain k := by
  have hagrees : Agrees storage find s t :=
    h.invariant ⟨rfl, .inl rfl⟩ fun _ _ _ hi hg hs => agrees_step hK hi hg hs
  refine ⟨?_, hagrees.item, ?_⟩
  · rw [load_spec hK, hagrees.memory]
    rfl
  · intro k hk pair
    constructor
    · rw [save_spec storage hK]
      split_ifs
      · exact Function.update_of_ne hk _ _
      · rfl
    · rw [clear_spec storage hK]
      split_ifs
      · exact Function.update_of_ne hk _ _
      · rfl

end Lockstep

section Demo

/-- A keychain that fails every call while the device is locked. -/
structure Device where
  locked : Bool
  items : Key → Option Attributes

def interactionNotAllowed : OSStatus := .errSec (-25308)

def deviceKeychain : Keychain Device where
  secItemCopyMatching d k :=
    if d.locked then (interactionNotAllowed, none)
    else match d.items k with
      | none => (.errSecItemNotFound, none)
      | some item => (.errSecSuccess, some item.valueData)
  secItemUpdate d k item :=
    if d.locked then (interactionNotAllowed, d)
    else if (d.items k).isSome then
      (.errSecSuccess, { d with items := Function.update d.items k (some item) })
    else (.errSecItemNotFound, d)
  secItemAdd d k item :=
    if d.locked then (interactionNotAllowed, d)
    else if (d.items k).isSome then (.errSecDuplicateItem, d)
    else (.errSecSuccess, { d with items := Function.update d.items k (some item) })
  secItemDelete d k :=
    if d.locked then (interactionNotAllowed, d)
    else if (d.items k).isSome then
      (.errSecSuccess, { d with items := Function.update d.items k none })
    else (.errSecItemNotFound, d)

theorem deviceKeychain_documented : deviceKeychain.Documented Device.items := by
  constructor <;> intro d k <;> rcases d with ⟨_ | _, items⟩ <;>
    cases hk : items k <;> simp [deviceKeychain, interactionNotAllowed, hk]

theorem copied_status {d : Device} {k : Key} (hlocked : d.locked = false)
    (hitem : d.items k ≠ none) :
    (deviceKeychain.secItemCopyMatching d k).1 = .errSecSuccess := by
  cases hk : d.items k with
  | none => exact (hitem hk).elim
  | some item => simp [deviceKeychain, hlocked, hk]

def emptyDevice : Device := ⟨false, fun _ => none⟩

/-- A save that inserts, one that fails on a locked device, and a load once it is unlocked. -/
theorem keychain_refines_demo :
    ∃ t : Twin Device, t.memory = some ⟨"a", "r", "u"⟩ ∧
      KeychainTokenStorage.load {} deviceKeychain t.keychain = some ⟨"a", "r", "u"⟩ := by
  let first : TokenPair := ⟨"a", "r", "u"⟩
  let second : TokenPair := ⟨"b", "s", "u"⟩
  let storage : KeychainTokenStorage := {}
  let inserted : Device := storage.save deviceKeychain emptyDevice first
  let locked : Device := { inserted with locked := true }
  let held : Twin Device := ⟨inserted, some first⟩
  let waiting : Twin Device := ⟨locked, some first⟩
  have hsame : Guard storage Device.items held (.world locked) := rfl
  have hsame' : Guard storage Device.items waiting (.world inserted) := rfl
  have hrun : Run (step storage deviceKeychain) (Guard storage Device.items)
      ⟨emptyDevice, stored storage Device.items emptyDevice⟩ held := by
    refine Run.tail (t := waiting) ?_ hsame' rfl
    refine Run.tail (t := waiting) (a := .save second) ?_ trivial rfl
    refine Run.tail (t := held) ?_ hsame rfl
    exact Run.single (a := .save first) trivial rfl
  have hload := (keychain_refines deviceKeychain_documented hrun).1
  have hitem : inserted.items storage.baseQuery ≠ none := by
    simp [inserted, KeychainTokenStorage.save, KeychainTokenStorage.saveItem, deviceKeychain,
      emptyDevice]
  have hstatus : (deviceKeychain.secItemCopyMatching inserted storage.baseQuery).1 =
      .errSecSuccess := copied_status rfl hitem
  rw [if_pos (.inl hstatus)] at hload
  exact ⟨held, rfl, hload⟩

end Demo

end FieldNote.TokenStorage
