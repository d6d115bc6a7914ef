import ContractAbi.Distinct

/-!
# Tables in order of arrival

A table maps keys to values and remembers the order in which the keys arrived. Writing to a key
that is already there changes the value and leaves its place.
-/

namespace ContractAbi

structure Table (κ α : Type) where
  entries : List (κ × α) := []
deriving Repr

namespace Table

variable {κ α : Type} [DecidableEq κ]

def get? (t : Table κ α) (k : κ) : Option α :=
  t.entries.lookup k

def contains (t : Table κ α) (k : κ) : Bool :=
  (t.get? k).isSome

def keys (t : Table κ α) : List κ :=
  t.entries.map (·.1)

/-- Writes `v` at the first entry for `k`, or at the end. -/
def insertInto (k : κ) (v : α) : List (κ × α) → List (κ × α)
  | [] => [(k, v)]
  | (k', v') :: rest => if k' = k then (k, v) :: rest else (k', v') :: insertInto k v rest

def insert (t : Table κ α) (k : κ) (v : α) : Table κ α :=
  ⟨insertInto k v t.entries⟩

def erase (t : Table κ α) (k : κ) : Table κ α :=
  ⟨t.entries.filter (·.1 ≠ k)⟩

/-- The table of these pairs, in which the last value of a key counts. -/
def ofPairs (pairs : List (κ × α)) : Table κ α :=
  pairs.foldl (fun t p => t.insert p.1 p.2) {}

theorem lookup_cons (k k' : κ) (v : α) (entries : List (κ × α)) :
    ((k, v) :: entries).lookup k' = if k' = k then some v else entries.lookup k' := by
  by_cases same : k' = k
  · simp [same]
  · have unequal : (k' == k) = false := by simpa using same
    rw [List.lookup_cons, unequal, if_neg same]

theorem lookup_insertInto (k k' : κ) (v : α) (entries : List (κ × α)) :
    (insertInto k v entries).lookup k' = if k' = k then some v else entries.lookup k' := by
  induction entries with
  | nil => simp [insertInto, lookup_cons]
  | cons entry rest ih =>
    obtain ⟨key, value⟩ := entry
    unfold insertInto
    by_cases here : key = k
    · subst here
      by_cases same : k' = key <;> simp [lookup_cons, same]
    · rw [if_neg here, lookup_cons, ih, lookup_cons]
      by_cases same : k' = key
      · subst same; simp [here]
      · simp [same]

@[simp]
theorem get?_insert_self (t : Table κ α) (k : κ) (v : α) : (t.insert k v).get? k = some v := by
  simp [get?, insert, lookup_insertInto]

theorem get?_insert_of_ne (t : Table κ α) {k k' : κ} (v : α) (different : k' ≠ k) :
    (t.insert k v).get? k' = t.get? k' := by
  simp [get?, insert, lookup_insertInto, different]

theorem contains_insert {t : Table κ α} {k k' : κ} {v : α} :
    (t.insert k v).contains k' = true ↔ k' = k ∨ t.contains k' = true := by
  by_cases same : k' = k
  · simp [contains, same]
  · simp [contains, same, get?_insert_of_ne]

theorem insert_of_get? {t : Table κ α} {k : κ} {v : α} (known : t.get? k = some v) :
    t.insert k v = t := by
  have general (entries : List (κ × α)) (known : entries.lookup k = some v) :
      insertInto k v entries = entries := by
    induction entries with
    | nil => cases known
    | cons entry rest ih =>
      obtain ⟨key, value⟩ := entry
      rw [lookup_cons] at known
      unfold insertInto
      by_cases here : key = k
      · rw [if_pos here.symm, Option.some.injEq] at known
        rw [if_pos here, here, known]
      · rw [if_neg (Ne.symm here)] at known
        rw [if_neg here, ih known]
  unfold insert
  rw [general t.entries known]

theorem insertInto_of_new {k : κ} (v : α) {entries : List (κ × α)} (new : k ∉ entries.map (·.1)) :
    insertInto k v entries = entries ++ [(k, v)] := by
  induction entries with
  | nil => rfl
  | cons entry entries ih =>
    simp only [List.map_cons, List.mem_cons, not_or] at new
    rw [insertInto, if_neg (Ne.symm new.1), ih new.2, List.cons_append]

theorem insertInto_of_mem {k : κ} (v : α) {entries : List (κ × α)}
    (distinct : (entries.map (·.1)).Nodup) (listed : k ∈ entries.map (·.1)) :
    insertInto k v entries = entries.map fun e => if e.1 = k then (k, v) else e := by
  induction entries with
  | nil => cases listed
  | cons entry rest ih =>
    rw [List.map_cons, List.nodup_cons] at distinct
    rw [insertInto, List.map_cons]
    by_cases here : entry.1 = k
    · have others : rest.map (fun e => if e.1 = k then (k, v) else e) = rest := by
        refine (List.map_congr_left fun e member => if_neg ?_).trans (List.map_id _)
        rintro rfl
        exact distinct.1 (List.mem_map.mpr ⟨e, member, here.symm⟩)
      rw [if_pos here, if_pos here, others]
    · have later : k ∈ rest.map (·.1) := by simpa [Ne.symm here] using listed
      rw [if_neg here, if_neg here, ih distinct.2 later]

theorem get?_of_mem {t : Table κ α} (distinct : t.keys.Nodup) {p : κ × α}
    (member : p ∈ t.entries) : t.get? p.1 = some p.2 := by
  obtain ⟨entries⟩ := t
  unfold get?
  unfold keys at distinct
  dsimp only at *
  induction entries with
  | nil => cases member
  | cons entry rest ih =>
    rw [List.map_cons, List.nodup_cons] at distinct
    rw [lookup_cons]
    rcases List.mem_cons.mp member with rfl | later
    · rw [if_pos rfl]
    · have other : p.1 ≠ entry.1 := fun same =>
        distinct.1 (List.mem_map.mpr ⟨p, later, same⟩)
      rw [if_neg other, ih distinct.2 later]

/-- An entry after a value was written is the one that was written, or it was there before. -/
theorem mem_entries_insert {t : Table κ α} {k : κ} {v : α} {entry : κ × α}
    (member : entry ∈ (t.insert k v).entries) : entry = (k, v) ∨ entry ∈ t.entries := by
  have general (entries : List (κ × α)) (member : entry ∈ insertInto k v entries) :
      entry = (k, v) ∨ entry ∈ entries := by
    induction entries with
    | nil => simpa [insertInto] using member
    | cons first rest ih =>
      unfold insertInto at member
      split at member
      · rcases List.mem_cons.mp member with rfl | old
        · exact Or.inl rfl
        · exact Or.inr (List.mem_cons_of_mem _ old)
      · rcases List.mem_cons.mp member with rfl | later
        · exact Or.inr List.mem_cons_self
        · exact (ih later).imp id (List.mem_cons_of_mem _)
  exact general t.entries member

theorem get?_erase (t : Table κ α) (k k' : κ) :
    (t.erase k).get? k' = if k' = k then none else t.get? k' := by
  unfold get? erase
  induction t.entries with
  | nil => simp
  | cons entry rest ih =>
    obtain ⟨key, value⟩ := entry
    by_cases erased : key = k
    · rw [List.filter_cons_of_neg (by simpa using erased), ih, lookup_cons, erased]
      split <;> rfl
    · rw [List.filter_cons_of_pos (by simpa using erased), lookup_cons, ih, lookup_cons]
      by_cases here : k' = key
      · have other : k' ≠ k := here ▸ erased
        rw [if_pos here, if_neg other, if_pos here]
      · rw [if_neg here, if_neg here]

theorem contains_erase {t : Table κ α} {k k' : κ} :
    (t.erase k).contains k' = true ↔ k' ≠ k ∧ t.contains k' = true := by
  by_cases same : k' = k <;> simp [contains, get?_erase, same]

theorem erase_of_get? {t : Table κ α} {k : κ} (missing : t.get? k = none) : t.erase k = t := by
  have others : t.entries.filter (·.1 ≠ k) = t.entries := by
    rw [List.filter_eq_self]
    intro entry member
    exact decide_eq_true (bne_iff_ne.mp (List.lookup_eq_none_iff.mp missing entry member)).symm
  unfold erase
  rw [others]

theorem foldl_insert (pairs : List (κ × α)) (t : Table κ α)
    (distinct : ((t.entries ++ pairs).map (·.1)).Nodup) :
    (pairs.foldl (fun t p => t.insert p.1 p.2) t).entries = t.entries ++ pairs := by
  induction pairs generalizing t with
  | nil => simp
  | cons p pairs ih =>
    have new : p.1 ∉ t.entries.map (·.1) := by
      rw [List.map_append, List.nodup_append] at distinct
      exact fun old => distinct.2.2 _ old _ (by simp) rfl
    have inserted : (t.insert p.1 p.2).entries = t.entries ++ [p] := insertInto_of_new p.2 new
    rw [List.foldl_cons, ih, inserted, List.append_assoc, List.singleton_append]
    rwa [inserted, List.append_assoc, List.singleton_append]

theorem entries_ofPairs {pairs : List (κ × α)} (distinct : (pairs.map (·.1)).Nodup) :
    (ofPairs pairs).entries = pairs := by
  simpa [ofPairs] using foldl_insert pairs {} (by simpa using distinct)

/-- A key for which all pairs have the same value has that value. -/
theorem get?_ofPairs {pairs : List (κ × α)} {k : κ} {v : α} (listed : (k, v) ∈ pairs)
    (same : ∀ p ∈ pairs, p.1 = k → p.2 = v) : (ofPairs pairs).get? k = some v := by
  have general (pairs : List (κ × α)) (t : Table κ α) (same : ∀ p ∈ pairs, p.1 = k → p.2 = v)
      (written : t.get? k = some v ∨ (k, v) ∈ pairs) :
      (pairs.foldl (fun t p => t.insert p.1 p.2) t).get? k = some v := by
    induction pairs generalizing t with
    | nil => exact written.resolve_right List.not_mem_nil
    | cons p pairs ih =>
      refine ih (t.insert p.1 p.2) (fun q member => same q (List.mem_cons_of_mem p member)) ?_
      by_cases here : p.1 = k
      · refine Or.inl ?_
        rw [here, get?_insert_self, same p List.mem_cons_self here]
      · rw [get?_insert_of_ne _ _ (Ne.symm here)]
        refine written.imp id fun member => (List.mem_cons.mp member).resolve_left ?_
        rintro rfl
        exact here rfl
  exact general pairs {} same (Or.inr listed)

end Table

end ContractAbi
