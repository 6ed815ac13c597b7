import Deadwood.Proofs.Store.Key
import Deadwood.Proofs.Text
import Deadwood.Proofs.Text.Octets
import Deadwood.Scan.Schema

/-!
# What keys and versions stand for

A key and a version are digests of octets that hold several parts. Each part but the last one ends
at a zero octet, so parts without the zero character can be read off the octets one after the other.
The names of analyzers are any number of parts, and the octet behind them may be zero itself; it is
the last one.

So different parts are digested from different octets, and are only confused if these clash:
`identities_clash_iff`.
-/

namespace Deadwood

namespace Sha256

/-- Different messages whose digests agree in that many of their first octets. -/
def Clash (count : Nat) (m m' : List UInt8) : Prop :=
  m ≠ m' ∧ (digest m).take count = (digest m').take count

/-- `Sha256.digest` agrees in its first octets for one message, or by a clash. -/
theorem take_digest_eq_iff {count : Nat} {m m' : List UInt8} :
    (digest m).take count = (digest m').take count ↔ m = m' ∨ Clash count m m' := by
  unfold Clash
  by_cases h : m = m'
  · simp [h]
  · simp [h]

/-- `Sha256.digest` has 32 octets, so all of them are compared. -/
theorem take_digest (m : List UInt8) : (digest m).take 32 = digest m :=
  List.take_of_length_le (Nat.le_of_eq (length_digest m))

end Sha256

/-! ## Hexadecimal digits -/

namespace Text

/-- `lowerHex` tells the numbers below 16 apart. -/
theorem lowerHex_inj : ∀ m < 16, ∀ n < 16, lowerHex m = lowerHex n → m = n := by
  decide

/-- `hexPair` tells octets apart. -/
theorem hexPair_inj {a b : UInt8} (h : hexPair a = hexPair b) : a = b := by
  have ha := a.toNat_lt
  have hb := b.toNat_lt
  simp only [hexPair, List.cons.injEq, and_true] at h
  have hhigh := lowerHex_inj _ (by omega) _ (by omega) h.1
  have hlow := lowerHex_inj _ (by omega) _ (by omega) h.2
  exact UInt8.toNat_inj.1 (by omega)

/-- `hex` tells octets by their digits. -/
theorem hex_inj {bytes bytes' : List UInt8} (h : hex bytes = hex bytes') : bytes = bytes' := by
  replace h : bytes.flatMap hexPair = bytes'.flatMap hexPair := String.ofList_injective h
  induction bytes generalizing bytes' with
  | nil =>
    cases bytes' with
    | nil => rfl
    | cons b bytes' => cases h
  | cons a bytes ih =>
    cases bytes' with
    | nil => cases h
    | cons b bytes' =>
      -- every octet has two digits
      obtain ⟨hpair, hrest⟩ := List.append_inj h rfl
      rw [hexPair_inj hpair, ih hrest]

/-- `octets` of a text without the zero character are told apart from what follows a zero octet
    behind them. -/
theorem octets_append_zero_inj {s t : String} (hs : '\x00' ∉ s.toList) (ht : '\x00' ∉ t.toList)
    {rest rest' : List UInt8} (h : octets s ++ 0 :: rest = octets t ++ 0 :: rest') :
    s = t ∧ rest = rest' := by
  obtain ⟨hoctets, hrest⟩ := append_cons_inj (fun _ => ne_zero_of_mem_octets hs)
    (fun _ => ne_zero_of_mem_octets ht) h
  exact ⟨octets_inj hoctets, hrest⟩

end Text

/-! ## Keys -/

namespace Store

/-- Neither the operation nor the path has the character that sets the parts of a key apart. -/
structure Subject.HasPlainParts (s : Subject) : Prop where
  operation : '\x00' ∉ s.operation.toList
  path : '\x00' ∉ s.path.text.toList

/-- `Subject.octets` tell the parts of a subject. -/
theorem Subject.octets_inj {s t : Subject} (hs : s.HasPlainParts) (ht : t.HasPlainParts)
    (h : s.octets = t.octets) : s = t := by
  simp only [octets, List.append_assoc, List.cons_append] at h
  -- part by part: what is left behind the second zero octet is the hash
  obtain ⟨hoperation, h⟩ := Text.octets_append_zero_inj hs.operation ht.operation h
  obtain ⟨hpath, h⟩ := Text.octets_append_zero_inj hs.path ht.path h
  have hhash := Text.octets_inj h
  obtain ⟨operation, ⟨text⟩, contentHash⟩ := s
  obtain ⟨operation', ⟨text'⟩, contentHash'⟩ := t
  cases hoperation
  cases hpath
  cases hhash
  rfl

/-- `Subject.key` is the same for the same octets, or by a clash. -/
theorem Subject.key_eq_iff {s t : Subject} :
    s.key = t.key ↔ s.octets = t.octets ∨ Sha256.Clash 32 s.octets t.octets := by
  rw [← Sha256.take_digest_eq_iff, Sha256.take_digest, Sha256.take_digest]
  exact ⟨Text.hex_inj, congrArg Text.hex⟩

end Store

/-! ## Versions -/

namespace Scan

/-- No name has the character that sets the names apart. -/
def HavePlainNames (analyzers : List String) : Prop := ∀ name ∈ analyzers, '\x00' ∉ name.toList

/-- `schemaOctets` without names is the octet of the choice. -/
theorem schemaOctets_nil (check : Bool) :
    schemaOctets [] check = [if check then 1 else 0] := rfl

/-- `schemaOctets` starts with the first name, which ends at a zero octet. -/
theorem schemaOctets_cons (name : String) (names : List String) (check : Bool) :
    schemaOctets (name :: names) check = Text.octets name ++ 0 :: schemaOctets names check := by
  simp [schemaOctets]

/-- `schemaOctets` is never empty, as the choice has an octet. -/
theorem schemaOctets_ne_nil (names : List String) (check : Bool) :
    schemaOctets names check ≠ [] := by
  simp [schemaOctets]

/-- `schemaOctets` of a name and the choice are more than one octet, so no list of names is taken
    for none. -/
theorem schemaOctets_cons_ne_nil (name : String) (names : List String) (check check' : Bool) :
    schemaOctets (name :: names) check ≠ schemaOctets [] check' := by
  intro h
  rw [schemaOctets_cons, schemaOctets_nil] at h
  have hlength := congrArg List.length h
  have hrest := List.length_pos_iff.2 (schemaOctets_ne_nil names check)
  simp only [List.length_append, List.length_cons, List.length_nil] at hlength
  omega

/-- `schemaOctets` tell the names in their order, and the choice. -/
theorem schemaOctets_inj {names names' : List String} {check check' : Bool}
    (hnames : HavePlainNames names) (hnames' : HavePlainNames names')
    (h : schemaOctets names check = schemaOctets names' check') :
    names = names' ∧ check = check' := by
  -- name by name; the octet of the choice is what is left at the end
  induction names generalizing names' with
  | nil =>
    cases names' with
    | nil =>
      have hchoice : ∀ a b : Bool, schemaOctets [] a = schemaOctets [] b → a = b := by decide
      exact ⟨rfl, hchoice check check' h⟩
    | cons name' names' => exact absurd h.symm (schemaOctets_cons_ne_nil name' names' check' check)
  | cons name names ih =>
    cases names' with
    | nil => exact absurd h (schemaOctets_cons_ne_nil name names check check')
    | cons name' names' =>
      obtain ⟨hname, hothers⟩ := List.forall_mem_cons.1 hnames
      obtain ⟨hname', hothers'⟩ := List.forall_mem_cons.1 hnames'
      rw [schemaOctets_cons, schemaOctets_cons] at h
      obtain ⟨rfl, hrest⟩ := Text.octets_append_zero_inj hname hname' h
      obtain ⟨rfl, rfl⟩ := ih hothers hothers' hrest
      exact ⟨rfl, rfl⟩

/-- `schema` is the same for the same octets, or by a clash in the part of the digest that is used.
    -/
theorem schema_eq_iff {names names' : List String} {check check' : Bool} :
    schema names check = schema names' check' ↔
      schemaOctets names check = schemaOctets names' check' ∨
        Sha256.Clash 6 (schemaOctets names check) (schemaOctets names' check') := by
  rw [← Sha256.take_digest_eq_iff]
  constructor
  · -- what stands before the digits is the same in all versions
    intro h
    exact Text.hex_inj ((String.append_right_inj _).1 h)
  · intro h
    rw [schema, schema, h]

end Scan

/-- Octets of keys and versions tell the parts that they were made of, where operations, paths and
    names have no zero character. So two keys are the same only for the same subject, or if their
    octets clash; and two versions only for the same names in the same order and the same choice, or
    if their octets clash in the part of the digest that is used. -/
theorem Store.identities_clash_iff :
    (∀ s t : Subject, s.HasPlainParts → t.HasPlainParts →
      (s.octets = t.octets → s = t) ∧
      (s.key = t.key ↔ s = t ∨ Sha256.Clash 32 s.octets t.octets)) ∧
    ∀ (names names' : List String) (check check' : Bool),
      Scan.HavePlainNames names → Scan.HavePlainNames names' →
        (Scan.schemaOctets names check = Scan.schemaOctets names' check' →
          names = names' ∧ check = check') ∧
        (Scan.schema names check = Scan.schema names' check' ↔ (names = names' ∧ check = check') ∨
          Sha256.Clash 6 (Scan.schemaOctets names check) (Scan.schemaOctets names' check')) := by
  constructor
  · intro s t hs ht
    -- without a clash the octets are the same, and these tell the subject
    have hinj : s.octets = t.octets ↔ s = t := ⟨Subject.octets_inj hs ht, congrArg Subject.octets⟩
    exact ⟨hinj.1, by rw [Subject.key_eq_iff, hinj]⟩
  · intro names names' check check' hnames hnames'
    have hinj : Scan.schemaOctets names check = Scan.schemaOctets names' check' ↔
        names = names' ∧ check = check' :=
      ⟨Scan.schemaOctets_inj hnames hnames', fun h => by rw [h.1, h.2]⟩
    exact ⟨hinj.1, by rw [Scan.schema_eq_iff, hinj]⟩

/-- Parts that make the same text when they are put together, and an empty name in front of an octet
    that is zero, make different octets. -/
theorem Store.identities_clash_iff_shifted :
    (Subject.HasPlainParts ⟨"scan", ⟨"/p/a"⟩, "bc"⟩ ∧
      Subject.HasPlainParts ⟨"scan", ⟨"/p/ab"⟩, "c"⟩ ∧
      Subject.octets ⟨"scan", ⟨"/p/a"⟩, "bc"⟩ ≠ Subject.octets ⟨"scan", ⟨"/p/ab"⟩, "c"⟩) ∧
    Scan.HavePlainNames ["unused-import", ""] ∧ Scan.HavePlainNames ["unused-import"] ∧
      Scan.schemaOctets ["unused-import", ""] false ≠
        Scan.schemaOctets ["unused-import"] false := by
  have hs : Subject.HasPlainParts ⟨"scan", ⟨"/p/a"⟩, "bc"⟩ := ⟨by decide, by decide⟩
  have ht : Subject.HasPlainParts ⟨"scan", ⟨"/p/ab"⟩, "c"⟩ := ⟨by decide, by decide⟩
  have hnames : Scan.HavePlainNames ["unused-import", ""] := by simp [Scan.HavePlainNames]
  have hnames' : Scan.HavePlainNames ["unused-import"] := by simp [Scan.HavePlainNames]
  refine ⟨⟨hs, ht, fun h => ?_⟩, hnames, hnames', fun h => ?_⟩
  · exact absurd ((identities_clash_iff.1 _ _ hs ht).1 h) (by decide)
  · exact absurd ((identities_clash_iff.2 _ _ _ _ hnames hnames').1 h).1 (by decide)

/-- With a zero character in them, parts are confused. -/
example : Store.Subject.octets ⟨"scan\x00/p", ⟨"a"⟩, "b"⟩ =
    Store.Subject.octets ⟨"scan", ⟨"/p\x00a"⟩, "b"⟩ := by decide

end Deadwood
