import Deadwood.Tree.Basic

/-!
# Items of a folder

What `put` and `erase` do to the items that `get?` finds in a folder, to the names in it and to the
other items. `TakenOut` says that items of one kind are taken out of a folder and nothing else
changes.
-/

namespace Deadwood

namespace Folder

/-- `get?` finds items of the folder. -/
theorem mem_of_get? {items : Folder} {name : String} {item : Item}
    (h : items.get? name = some item) : (name, item) ∈ items := by
  induction items with
  | nil => cases h
  | cons head rest ih =>
    obtain ⟨n, i⟩ := head
    rw [get?, List.lookup_cons] at h
    split at h
    · rename_i heq
      rw [beq_iff_eq] at heq
      cases h
      rw [heq]
      exact List.mem_cons_self
    · exact List.mem_cons_of_mem _ (ih h)

/-- `put` adds its item, and nothing else. -/
theorem mem_put {items : Folder} {name : String} {item : Item} {entry : String × Item}
    (h : entry ∈ items.put name item) : entry = (name, item) ∨ entry ∈ items := by
  induction items with
  | nil => exact .inl (List.mem_singleton.1 h)
  | cons head rest ih =>
    obtain ⟨n, i⟩ := head
    rw [put] at h
    -- an item of that name is written over, and any other one is passed
    split at h
    · rename_i heq
      rw [heq] at h
      exact (List.mem_cons.1 h).imp id (List.mem_cons_of_mem _)
    · rcases List.mem_cons.1 h with rfl | h
      · exact .inr List.mem_cons_self
      · exact (ih h).imp id (List.mem_cons_of_mem _)

/-- `get?` finds the first item of the name. -/
theorem get?_cons (n : String) (i : Item) (rest : Folder) (name : String) :
    get? ((n, i) :: rest) name = if n = name then some i else rest.get? name := by
  rw [get?, List.lookup_cons]
  by_cases h : n = name
  · simp [h]
  · simp [h, beq_eq_false_iff_ne.2 (Ne.symm h), get?]

/-- `get?` finds every item of a folder whose names are distinct. -/
theorem get?_of_mem {items : Folder} (hnames : (items.map (·.1)).Nodup) {name : String}
    {item : Item} (h : (name, item) ∈ items) : items.get? name = some item := by
  induction items with
  | nil => cases h
  | cons head rest ih =>
    obtain ⟨n, i⟩ := head
    obtain ⟨hn, hnames⟩ := List.nodup_cons.1 hnames
    rw [get?_cons]
    rcases List.mem_cons.1 h with heq | hrest
    · cases heq
      rw [if_pos rfl]
    · -- another item of that name would be the first one again
      have hne : n ≠ name := fun heq => hn (List.mem_map.2 ⟨_, hrest, heq.symm⟩)
      rw [if_neg hne, ih hnames hrest]

/-- `get?` finds the item that was put under its name, and under other names what was there before.
    -/
theorem get?_put (items : Folder) (name : String) (item : Item) (name' : String) :
    (items.put name item).get? name' = if name = name' then some item else items.get? name' := by
  induction items with
  | nil => rw [put, get?_cons]
  | cons head rest ih =>
    obtain ⟨n, i⟩ := head
    rw [put]
    split
    · rename_i heq
      rw [get?_cons, get?_cons, heq]
      split <;> rfl
    · rename_i hne
      rw [get?_cons, ih, get?_cons]
      -- the item before is found under its own name, which is another one
      split
      · rename_i heq
        rw [if_neg fun h => hne (heq.trans h.symm)]
      · rfl

/-- `put` adds its name at the end, if it is new. -/
theorem names_put (items : Folder) (name : String) (item : Item) :
    (items.put name item).map (·.1) =
      if name ∈ items.map (·.1) then items.map (·.1) else items.map (·.1) ++ [name] := by
  -- an item of that name is written over in its place
  induction items with
  | nil => rfl
  | cons head rest ih =>
    obtain ⟨n, i⟩ := head
    rw [put]
    split
    · rename_i heq
      simp [heq]
    · rename_i hne
      rw [List.map_cons, ih, List.map_cons]
      simp only [List.mem_cons, Ne.symm hne, false_or]
      split <;> rfl

/-- `get?` in a folder from which items are left out by their names. -/
theorem get?_filter (items : Folder) (keep : String → Bool) (name : String) :
    Folder.get? (items.filter fun i => keep i.1) name =
      if keep name then items.get? name else none := by
  induction items with
  | nil => split <;> rfl
  | cons head rest ih =>
    obtain ⟨n, i⟩ := head
    rw [get?_cons, List.filter_cons]
    -- an item that is left out could not be found under a name that is kept
    by_cases hn : keep n = true
    · rw [if_pos hn, get?_cons, ih]
      split
      · rename_i heq
        rw [← heq, if_pos hn]
      · rfl
    · rw [if_neg hn, ih]
      split
      · rename_i hname
        have hne : n ≠ name := fun heq => hn (by rwa [heq])
        rw [if_neg hne]
      · rfl

/-- `put` does not change the items under other names. -/
theorem filter_put (keep : String → Bool) {name : String} (hname : keep name = false)
    (items : Folder) (item : Item) :
    (items.put name item).filter (fun i => keep i.1) = items.filter fun i => keep i.1 := by
  induction items with
  | nil => simp [put, hname]
  | cons head rest ih =>
    obtain ⟨n, i⟩ := head
    rw [put]
    split
    · rename_i heq
      simp [heq, hname]
    · rw [List.filter_cons, List.filter_cons, ih]

/-- `erase` does not change the items under other names. -/
theorem filter_erase (keep : String → Bool) {name : String} (hname : keep name = false)
    (items : Folder) :
    (items.erase name).filter (fun i => keep i.1) = items.filter fun i => keep i.1 := by
  rw [erase, List.filter_filter]
  refine List.filter_congr fun i _ => ?_
  by_cases heq : i.1 = name
  · simp [heq, hname]
  · simp [heq]

/-! ## Taking items out -/

/-- `get?` does not find the name that was erased, and under other names what was there before. -/
theorem get?_erase (items : Folder) (old name : String) :
    (items.erase old).get? name = if name = old then none else items.get? name := by
  rw [erase, get?_filter items fun n => n != old]
  by_cases hname : name = old <;> simp [hname]

/-- `erase` does nothing to a folder in which `get?` does not find the name. -/
theorem erase_eq_self {items : Folder} {name : String} (h : items.get? name = none) :
    items.erase name = items := by
  induction items with
  | nil => rfl
  | cons head rest ih =>
    obtain ⟨n, i⟩ := head
    rw [get?_cons] at h
    -- the first item has another name, or it would be found
    split at h
    · cases h
    · rename_i hne
      have hrest := ih h
      rw [erase] at hrest ⊢
      rw [List.filter_cons_of_pos (by simpa using hne), hrest]

/-- `erase` takes out what was put under the name, and leaves the items under other names. -/
theorem erase_put_self (items : Folder) (name : String) (item : Item) :
    (items.put name item).erase name = items.erase name :=
  filter_put (fun n => n != name) (bne_self_eq_false name) items item

/-- `erase` does nothing the second time. -/
theorem erase_erase_self (items : Folder) (name : String) :
    (items.erase name).erase name = items.erase name := by
  refine erase_eq_self ?_
  rw [get?_erase, if_pos rfl]

/-- `erase` before or after other items are left out is the same. -/
theorem filter_erase_comm (keep : String × Item → Bool) (items : Folder) (name : String) :
    (items.erase name).filter keep = Folder.erase (items.filter keep) name := by
  rw [erase, erase, List.filter_filter, List.filter_filter]
  exact List.filter_congr fun i _ => Bool.and_comm _ _

/-- `erase` of two names in either order is the same. -/
theorem erase_comm (items : Folder) (name name' : String) :
    (items.erase name).erase name' = (items.erase name').erase name :=
  filter_erase_comm _ items name

/-- `put` keeps the names distinct. -/
theorem nodup_names_put {items : Folder} (hnames : (items.map (·.1)).Nodup) (name : String)
    (item : Item) : ((items.put name item).map (·.1)).Nodup := by
  rw [names_put]
  split
  · exact hnames
  · rename_i hnew
    refine List.nodup_append.2 ⟨hnames, List.pairwise_singleton _ _, fun n hn n' hn' heq => hnew ?_⟩
    rw [← List.mem_singleton.1 hn', ← heq]
    exact hn

/-- `erase` keeps the names distinct. -/
theorem nodup_names_erase {items : Folder} (hnames : (items.map (·.1)).Nodup) (name : String) :
    ((items.erase name).map (·.1)).Nodup :=
  hnames.sublist (List.filter_sublist.map _)

/-- Items are taken out, all of them of this kind, and nothing else changes. -/
structure TakenOut (kind : String × Item → Bool) (before after : Folder) : Prop where
  sublist : after.Sublist before
  others : after.filter (fun x => !kind x) = before.filter fun x => !kind x

namespace TakenOut

/-- `TakenOut` holds where nothing is taken out. -/
theorem refl (kind : String × Item → Bool) (items : Folder) : TakenOut kind items items :=
  ⟨.refl _, rfl⟩

/-- `TakenOut` holds of any wider kind. -/
theorem mono {kind wider : String × Item → Bool} {before after : Folder}
    (h : TakenOut kind before after) (hwider : ∀ x, kind x = true → wider x = true) :
    TakenOut wider before after where
  sublist := h.sublist
  others := by
    -- leaving out both kinds is leaving out the wider one
    have hothers : ∀ items : Folder, (items.filter fun x => !kind x).filter (fun x => !wider x) =
        items.filter fun x => !wider x := by
      intro items
      rw [List.filter_filter]
      refine List.filter_congr fun x _ => ?_
      cases hkind : kind x with
      | false => simp
      | true => simp [hwider x hkind]
    rw [← hothers after, h.others, hothers before]

/-- `TakenOut` twice is `TakenOut`. -/
theorem trans {kind : String × Item → Bool} {before between after : Folder}
    (h : TakenOut kind before between) (h' : TakenOut kind between after) :
    TakenOut kind before after :=
  ⟨h'.sublist.trans h.sublist, h'.others.trans h.others⟩

/-- `erase` takes out items of one kind, if all of that name are of this kind. -/
theorem erase {kind : String × Item → Bool} {name : String}
    (hname : ∀ item, kind (name, item) = true) (items : Folder) :
    TakenOut kind items (items.erase name) where
  sublist := List.filter_sublist
  others := by
    rw [Folder.erase, List.filter_filter]
    refine List.filter_congr fun x _ => ?_
    by_cases heq : x.1 = name
    · obtain ⟨_, item⟩ := x
      cases heq
      simp [hname item]
    · simp [heq]

end TakenOut

end Folder
end Deadwood
