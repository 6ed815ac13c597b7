import Deadwood.Json.Decode
import Deadwood.Proofs.Json.Reading

/-!
# Values that the format can hold

A value fits into the format if its whole numbers have 64 bits, its other numbers are read back from
the digits that are written for them, it has no two members of one name in an object, and it is
nested no deeper than the reader follows. Such a value is read back as it was written:
`reread?_of_fits`. Not every number is read back from its digits: `double?_unreadDouble`.
-/

namespace Deadwood.Json

/-- Reads a number of double precision. -/
def double? (cs : List Char) : Option Double :=
  match number? cs with
  | some (.double f) => some f
  | _ => none

/-- Is the number read back from the digits that are written for it? -/
def isReread (f : Double) : Bool := double? (doubleChars f) == some f

mutual

/-- Is it a value that the format can hold inside as many others as `level` says? -/
def fits (level : Nat) : Json → Bool
  | .int n => -0x8000000000000000 ≤ n && n < 0x10000000000000000
  | .double f => isReread f
  | .arr items => level < maxDepth && itemsFit (level + 1) items
  | .obj members => level < maxDepth && membersFit (level + 1) members
  | _ => true

/-- `fits` for each item. -/
def itemsFit (level : Nat) : List Json → Bool
  | [] => true
  | v :: rest => fits level v && itemsFit level rest

/-- `fits` for the value of each member, all under different names. -/
def membersFit (level : Nat) : List (String × Json) → Bool
  | [] => true
  | (name, v) :: rest =>
    !(rest.any fun m => m.1 == name) && fits level v && membersFit level rest

end

/-- `ofNat` fits if the number has 64 bits. -/
theorem fits_ofNat {n : Nat} (h : n < 0x10000000000000000) (level : Nat) :
    (ofNat n).fits level = true := by
  simp only [ofNat, fits, Bool.and_eq_true, decide_eq_true_eq]
  omega

/-- `itemsFit` for values that are written one by one. -/
theorem itemsFit_map {α : Type} {write : α → Json} {level : Nat} {xs : List α}
    (h : ∀ x ∈ xs, (write x).fits level = true) : itemsFit level (xs.map write) = true := by
  induction xs with
  | nil => rfl
  | cons x xs ih =>
    rw [List.map_cons, itemsFit, h x List.mem_cons_self,
      ih fun y hy => h y (List.mem_cons_of_mem x hy)]
    rfl

/-! ## Numbers that are not whole -/

/-- `number?` reads what `double?` reads. -/
theorem number?_of_double? {cs : List Char} {f : Double} (h : double? cs = some f) :
    number? cs = some (.double f) := by
  unfold double? at h
  split at h
  · rename_i hnumber
    rw [hnumber, Option.some.inj h]
  · cases h

/-- `number?` reads a number back for which `isReread` holds. -/
theorem number?_doubleChars {f : Double} (h : isReread f = true) :
    number? (doubleChars f) = some (.double f) :=
  number?_of_double? (eq_of_beq h)

/-- The number that is nearest to `0.9452706955539223`. -/
def unreadDouble : Double := ⟨false, 8514241504521788, 1021, by decide⟩

/-- `double?` reads the digits of `unreadDouble` as the number that follows it, because the reader
    rounds twice. -/
theorem double?_unreadDouble :
    doubleChars unreadDouble = "0.9452706955539223".toList ∧
      double? (doubleChars unreadDouble) = some ⟨false, 8514241504521789, 1021, by decide⟩ := by
  decide +kernel

/-! ## Values -/

mutual

/-- `reread?` leaves a value that `fits` as it is. -/
theorem reread?_of_fits (level : Nat) : ∀ v : Json, v.fits level = true → v.reread? level = some v
  -- along the recursion of `reread?`; its part for lists of values is proved beside it
  | .null, _ => rfl
  | .bool _, _ => rfl
  | .int n, h => by
    simp only [fits, Bool.and_eq_true, decide_eq_true_eq] at h
    rw [reread?, number?_intChars h.1 h.2]
  | .double f, h => by
    rw [fits] at h
    rw [reread?, number?_doubleChars h]
  | .str _, _ => rfl
  | .arr items, h => by
    simp only [fits, Bool.and_eq_true, decide_eq_true_eq] at h
    rw [reread?, if_pos h.1, rereadItems?_of_fit (level + 1) items h.2]
    rfl
  | .obj members, h => by
    simp only [fits, Bool.and_eq_true, decide_eq_true_eq] at h
    rw [reread?, if_pos h.1, rereadMembers?_of_fit (level + 1) members h.2]
    rfl

/-- `rereadItems?` leaves items that fit as they are. -/
theorem rereadItems?_of_fit (level : Nat) :
    ∀ items : List Json, itemsFit level items = true → rereadItems? level items = some items
  | [], _ => rfl
  | v :: rest, h => by
    rw [itemsFit, Bool.and_eq_true] at h
    rw [rereadItems?, reread?_of_fits level v h.1, rereadItems?_of_fit level rest h.2]
    rfl

/-- `rereadMembers?` leaves members that fit as they are. -/
theorem rereadMembers?_of_fit (level : Nat) : ∀ members : List (String × Json),
    membersFit level members = true → rereadMembers? level members = some members
  | [], _ => rfl
  | (_, v) :: rest, h => by
    rw [membersFit, Bool.and_eq_true, Bool.and_eq_true] at h
    rw [rereadMembers?, reread?_of_fits level v h.1.2, rereadMembers?_of_fit level rest h.2]
    rfl

end

mutual

/-- `lastMembers` leaves a value that `fits` as it is: every member is the last one of its name. -/
theorem lastMembers_of_fits (level : Nat) : ∀ v : Json, v.fits level = true → v.lastMembers = v
  | .null, _ => rfl
  | .bool _, _ => rfl
  | .int _, _ => rfl
  | .double _, _ => rfl
  | .str _, _ => rfl
  | .arr items, h => by
    simp only [fits, Bool.and_eq_true] at h
    rw [lastMembers, lastMembersOfItems_of_fit (level + 1) items h.2]
  | .obj members, h => by
    simp only [fits, Bool.and_eq_true] at h
    rw [lastMembers, lastMembersOf_of_fit (level + 1) members h.2]

/-- `lastMembersOfItems` leaves items that fit as they are. -/
theorem lastMembersOfItems_of_fit (level : Nat) :
    ∀ items : List Json, itemsFit level items = true → lastMembersOfItems items = items
  | [], _ => rfl
  | v :: rest, h => by
    rw [itemsFit, Bool.and_eq_true] at h
    rw [lastMembersOfItems, lastMembers_of_fits level v h.1,
      lastMembersOfItems_of_fit level rest h.2]

/-- `lastMembersOf` leaves members that fit as they are, since no name comes again. -/
theorem lastMembersOf_of_fit (level : Nat) : ∀ members : List (String × Json),
    membersFit level members = true → lastMembersOf members = members
  | [], _ => rfl
  | (_, v) :: rest, h => by
    simp only [membersFit, Bool.and_eq_true, Bool.not_eq_true'] at h
    rw [lastMembersOf, h.1.1, lastMembers_of_fits level v h.1.2,
      lastMembersOf_of_fit level rest h.2]
    rfl

end

end Deadwood.Json
