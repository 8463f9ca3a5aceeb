import Mathlib.Data.List.Nodup

/-!
# Keyed tables

A table is a list of rows with a key. `Keyed.upsert` updates the rows with a key, or appends a new
one if there is none: a statement that matches, followed by one that sets or creates. What a lookup
finds afterwards depends on what the same lookup found before, so a series of upserts is understood
key by key.
-/

namespace Keyed

variable {α β κ : Type} [DecidableEq κ] (key : α → κ)

/-- The first row with the key. -/
def lookup (k : κ) (rows : List α) : Option α := rows.find? (key · = k)

def upsert (k : κ) (new : α) (f : α → α) (rows : List α) : List α :=
  if rows.any (key · = k) then rows.map fun row => if key row = k then f row else row
  else rows ++ [new]

variable {key} {k k' : κ} {rows : List α} {new row : α} {f : α → α}

theorem lookup_eq_none : lookup key k rows = none ↔ ∀ row ∈ rows, key row ≠ k := by
  simp [lookup]

theorem mem_of_lookup (h : lookup key k rows = some row) : row ∈ rows ∧ key row = k :=
  ⟨List.mem_of_find?_eq_some h, by simpa using List.find?_some h⟩

/-- A key that no two rows share finds its row. -/
theorem lookup_eq_some (hrows : (rows.map key).Nodup) :
    lookup key k rows = some row ↔ row ∈ rows ∧ key row = k := by
  refine ⟨mem_of_lookup, fun ⟨hrow, hkey⟩ => ?_⟩
  cases hfind : lookup key k rows with
  | none => exact absurd hkey (lookup_eq_none.mp hfind row hrow)
  | some row' =>
    obtain ⟨hrow', hkey'⟩ := mem_of_lookup hfind
    rw [List.inj_on_of_nodup_map hrows hrow' hrow (hkey'.trans hkey.symm)]

theorem any_iff : rows.any (key · = k) = true ↔ k ∈ rows.map key := by
  simp only [List.any_eq_true, decide_eq_true_eq, List.mem_map]

/-- A key that is not there is appended. -/
theorem upsert_of_none (h : lookup key k rows = none) :
    upsert key k new f rows = rows ++ [new] := by
  have hno : ¬ rows.any (key · = k) = true := by
    rw [any_iff, List.mem_map]
    rintro ⟨row, hrow, hkey⟩
    exact lookup_eq_none.mp h row hrow hkey
  rw [upsert, if_neg hno]

theorem upsert_of_some (h : lookup key k rows = some row) :
    upsert key k new f rows = rows.map fun row => if key row = k then f row else row := by
  obtain ⟨hrow, hkey⟩ := mem_of_lookup h
  rw [upsert, if_pos (any_iff.mpr (hkey ▸ List.mem_map_of_mem hrow))]

/-- The only row with a key that no two rows share. -/
theorem filter_key (hrows : (rows.map key).Nodup) :
    rows.filter (key · = k) = (lookup key k rows).toList := by
  induction rows with
  | nil => rfl
  | cons row rows ih =>
    rw [List.map_cons, List.nodup_cons] at hrows
    by_cases hkey : key row = k
    · have hnone : rows.filter (key · = k) = [] := by
        rw [List.filter_eq_nil_iff]
        intro row' hrow' hkey'
        exact hrows.1 (List.mem_map.mpr ⟨row', hrow', by simpa [hkey] using hkey'⟩)
      simp [lookup, hkey, hnone]
    · simpa [lookup, hkey] using ih hrows.2

/-- A key that no two rows share finds its row also among those that are kept. -/
theorem lookup_filter (p : α → Bool) (hrows : (rows.map key).Nodup) :
    lookup key k (rows.filter p) = (lookup key k rows).filter p := by
  have hfilter : ((rows.filter p).map key).Nodup := hrows.sublist (List.filter_sublist.map _)
  ext row
  rw [lookup_eq_some hfilter, Option.filter_eq_some_iff, lookup_eq_some hrows, List.mem_filter]
  tauto

/-- What the update keeps of a row, it keeps of the table. -/
theorem map_update {p : α → β} (hp : ∀ row, key row = k → p (f row) = p row) :
    (rows.map fun row => if key row = k then f row else row).map p = rows.map p := by
  rw [List.map_map]
  refine List.map_congr_left fun row _ => ?_
  by_cases hkey : key row = k
  · simp [hkey, hp row hkey]
  · simp [hkey]

theorem lookup_update (hf : ∀ row, key row = k → key (f row) = k) :
    lookup key k (rows.map fun row => if key row = k then f row else row) =
      (lookup key k rows).map f := by
  induction rows with
  | nil => rfl
  | cons row rows ih =>
    by_cases hkey : key row = k
    · simp [lookup, hkey, hf row hkey]
    · simpa [lookup, hkey] using ih

theorem lookup_update_ne (hf : ∀ row, key row = k → key (f row) = k) (hne : k' ≠ k) :
    lookup key k' (rows.map fun row => if key row = k then f row else row) =
      lookup key k' rows := by
  induction rows with
  | nil => rfl
  | cons row rows ih =>
    by_cases hkey : key row = k
    · simpa [lookup, hkey, hf row hkey, hne.symm] using ih
    · by_cases hkey' : key row = k'
      · simp [lookup, hkey', hne]
      · simpa [lookup, hkey, hkey'] using ih

/-- An upsert leaves its key with the new row, or with the update of the row that was there. -/
theorem lookup_upsert (hnew : key new = k) (hf : ∀ row, key row = k → key (f row) = k) :
    lookup key k (upsert key k new f rows) = some ((lookup key k rows).elim new f) := by
  cases h : lookup key k rows with
  | none =>
    rw [upsert_of_none h, lookup, List.find?_append]
    simp only [lookup] at h
    simp [h, hnew]
  | some row =>
    rw [upsert_of_some h, lookup_update hf, h]
    rfl

theorem lookup_upsert_ne (hnew : key new = k) (hf : ∀ row, key row = k → key (f row) = k)
    (hne : k' ≠ k) : lookup key k' (upsert key k new f rows) = lookup key k' rows := by
  cases h : lookup key k rows with
  | none =>
    rw [upsert_of_none h, lookup, lookup, List.find?_append]
    simp [hnew, hne.symm]
  | some row => rw [upsert_of_some h, lookup_update_ne hf hne]

/-- Every row stays in its place, and a new one comes last. -/
theorem map_upsert {p : α → β} (hp : ∀ row, key row = k → p (f row) = p row) :
    (k ∈ rows.map key ∧ (upsert key k new f rows).map p = rows.map p) ∨
    (k ∉ rows.map key ∧ (upsert key k new f rows).map p = rows.map p ++ [p new]) := by
  cases h : lookup key k rows with
  | none =>
    right
    constructor
    · rw [List.mem_map]
      rintro ⟨row, hrow, hkey⟩
      exact lookup_eq_none.mp h row hrow hkey
    · rw [upsert_of_none h, List.map_append, List.map_singleton]
  | some row =>
    left
    obtain ⟨hrow, hkey⟩ := mem_of_lookup h
    exact ⟨hkey ▸ List.mem_map_of_mem hrow, by rw [upsert_of_some h, map_update hp]⟩

theorem map_upsert_extends {p : α → β} (hp : ∀ row, key row = k → p (f row) = p row) :
    rows.map p <+: (upsert key k new f rows).map p := by
  rcases map_upsert hp with ⟨-, h⟩ | ⟨-, h⟩
  · exact h ▸ List.prefix_rfl
  · exact h ▸ List.prefix_append _ _

/-- A row after the upsert is one from before with another key, the new one, or what an update has
made. -/
theorem mem_upsert (h : row ∈ upsert key k new f rows) :
    (row ∈ rows ∧ key row ≠ k) ∨ row = new ∨ ∃ old ∈ rows, key old = k ∧ row = f old := by
  unfold upsert at h
  split_ifs at h
  · obtain ⟨old, hold, rfl⟩ := List.mem_map.mp h
    split_ifs with hkey
    · exact .inr (.inr ⟨old, hold, hkey, rfl⟩)
    · exact .inl ⟨hold, hkey⟩
  · rename_i hno
    rw [any_iff] at hno
    rcases List.mem_append.mp h with hold | hnew
    · exact .inl ⟨hold, fun hkey => hno (hkey ▸ List.mem_map_of_mem hold)⟩
    · exact .inr (.inl (List.mem_singleton.mp hnew))

theorem nodup_upsert (hnew : key new = k) (hf : ∀ row, key row = k → key (f row) = k)
    (hrows : (rows.map key).Nodup) : ((upsert key k new f rows).map key).Nodup := by
  rcases map_upsert fun row hkey => (hf row hkey).trans hkey.symm with ⟨-, h⟩ | ⟨hmem, h⟩ <;>
    rw [h]
  · exact hrows
  · rw [hnew]
    exact List.concat_eq_append ▸ hrows.concat hmem

/-! ## Replaying a series of upserts -/

section Replay

variable {ι : Type} (key) (k : ι → κ) (new : ι → α) (f : ι → α → α)

/-- A series of upserts. -/
def upserts (is : List ι) (rows : List α) : List α :=
  is.foldl (fun rows i => upsert key (k i) (new i) (f i) rows) rows

/-- What a series makes of a row. -/
def overwrite (is : List ι) (row : α) : α :=
  is.foldl (fun row i => if key row = k i then f i row else row) row

/-- The upserts overwrite: what one of them leaves under its key, another one with the key replaces
by what it would have left without the first. -/
structure Overwrites : Prop where
  key_new : ∀ i, key (new i) = k i
  key_update : ∀ i row, key row = k i → key (f i row) = k i
  update_update : ∀ i j row, key row = k i → k i = k j → f j (f i row) = f j row
  update_new : ∀ i, f i (new i) = new i

variable {key k new f} (h : Overwrites key k new f) {is js : List ι} {rows : List α} {i : ι}

theorem upserts_append :
    upserts key k new f (is ++ js) rows = upserts key k new f js (upserts key k new f is rows) :=
  List.foldl_append ..

include h

theorem Overwrites.key_step (i : ι) (row : α) :
    key (if key row = k i then f i row else row) = key row := by
  split_ifs with hkey
  · rw [h.key_update i row hkey, hkey]
  · rfl

/-- A key does not go away. -/
theorem Overwrites.mem_keys_upserts {a : κ} (ha : a ∈ rows.map key) :
    a ∈ (upserts key k new f is rows).map key := by
  induction is generalizing rows with
  | nil => exact ha
  | cons i is ih =>
    apply ih
    have hp : ∀ row, key row = k i → key (f i row) = key row :=
      fun row hkey => (h.key_update i row hkey).trans hkey.symm
    exact (map_upsert_extends hp).subset ha

theorem Overwrites.keys_upserts (hi : i ∈ is) : k i ∈ (upserts key k new f is rows).map key := by
  induction is generalizing rows with
  | nil => cases hi
  | cons j is ih =>
    rcases List.mem_cons.mp hi with rfl | hi
    · show k i ∈ (upserts key k new f is (upsert key (k i) (new i) (f i) rows)).map key
      apply h.mem_keys_upserts
      have hfind : lookup key (k i) (upsert key (k i) (new i) (f i) rows) = some _ :=
        lookup_upsert (h.key_new i) (h.key_update i)
      obtain ⟨hmem, hkey⟩ := mem_of_lookup hfind
      exact List.mem_map.mpr ⟨_, hmem, hkey⟩
    · exact ih hi

/-- If all its keys are there, a series only overwrites. -/
theorem Overwrites.upserts_eq_map (hkeys : ∀ i ∈ is, k i ∈ rows.map key) :
    upserts key k new f is rows = rows.map (overwrite key k f is) := by
  induction is generalizing rows with
  | nil => exact (List.map_id rows).symm
  | cons i is ih =>
    have hstep : upsert key (k i) (new i) (f i) rows =
        rows.map fun row => if key row = k i then f i row else row := by
      rw [upsert, if_pos (any_iff.mpr (hkeys i List.mem_cons_self))]
    have hsame : (rows.map fun row => if key row = k i then f i row else row).map key =
        rows.map key := by
      rw [List.map_map]
      exact List.map_congr_left fun row _ => h.key_step i row
    rw [upserts, List.foldl_cons, hstep]
    refine (ih fun j hj => ?_).trans (List.map_map ..)
    rw [hsame]
    exact hkeys j (List.mem_cons_of_mem i hj)

/-- What one upsert leaves, a later one with the same key does not see. -/
theorem Overwrites.overwrite_update {row : α} (hrow : key row = k i)
    (hlater : ∃ j ∈ is, k j = k i) :
    overwrite key k f is (f i row) = overwrite key k f is row := by
  induction is with
  | nil =>
    obtain ⟨j, hj, -⟩ := hlater
    cases hj
  | cons j is ih =>
    have hkey := h.key_update i row hrow
    rw [overwrite, overwrite, List.foldl_cons, List.foldl_cons, hkey, hrow]
    by_cases hj : k i = k j
    · rw [if_pos hj, if_pos hj, h.update_update i j row hrow hj]
    · rw [if_neg hj, if_neg hj]
      apply ih
      obtain ⟨j', hj', hsame⟩ := hlater
      rcases List.mem_cons.mp hj' with rfl | hj'
      · exact absurd hsame.symm hj
      · exact ⟨j', hj', hsame⟩

/-- A row whose key no upsert of the series has was there before. -/
theorem Overwrites.mem_of_upserts {row : α} (hrow : row ∈ upserts key k new f is rows)
    (hother : ∀ i ∈ is, key row ≠ k i) : row ∈ rows := by
  induction is generalizing rows with
  | nil => exact hrow
  | cons i is ih =>
    have hmem : row ∈ upsert key (k i) (new i) (f i) rows :=
      ih hrow fun j hj => hother j (List.mem_cons_of_mem i hj)
    have hne := hother i List.mem_cons_self
    rcases mem_upsert hmem with ⟨hold, -⟩ | rfl | ⟨old, -, hkey, rfl⟩
    · exact hold
    · exact absurd (h.key_new i) hne
    · exact absurd (h.key_update i old hkey) hne

/-- The series does nothing to the rows that it leaves. -/
theorem Overwrites.overwrite_upserts {row : α} (hrow : row ∈ upserts key k new f is rows) :
    overwrite key k f is row = row := by
  induction is generalizing rows with
  | nil => rfl
  | cons i is ih =>
    rw [overwrite, List.foldl_cons]
    split_ifs with hkey
    · by_cases hlater : ∃ j ∈ is, k j = k i
      · exact (h.overwrite_update hkey hlater).trans (ih hrow)
      · -- the row is as the first upsert has left it
        have hother : ∀ j ∈ is, key row ≠ k j :=
          fun j hj hsame => hlater ⟨j, hj, hsame.symm.trans hkey⟩
        have hmem : row ∈ upsert key (k i) (new i) (f i) rows := h.mem_of_upserts hrow hother
        have hfixed : f i row = row := by
          rcases mem_upsert hmem with ⟨-, hne⟩ | rfl | ⟨old, -, hold, rfl⟩
          · exact absurd hkey hne
          · exact h.update_new i
          · exact h.update_update i i old hold rfl
        rw [hfixed]
        exact ih hrow
    · exact ih hrow

/-- Where an update leaves what an insertion would, the last upsert under a key decides. -/
theorem Overwrites.lookup_upserts (hsame : ∀ i row, key row = k i → f i row = new i) (a : κ) :
    lookup key a (upserts key k new f is rows) =
      ((is.reverse.find? (k · = a)).map new).or (lookup key a rows) := by
  induction is generalizing rows with
  | nil => rfl
  | cons i is ih =>
    have hfirst : lookup key a (upsert key (k i) (new i) (f i) rows) =
        (([i].find? (k · = a)).map new).or (lookup key a rows) := by
      by_cases hkey : k i = a
      · subst hkey
        rw [lookup_upsert (h.key_new i) (h.key_update i)]
        cases hrow : lookup key (k i) rows with
        | none => simp
        | some row => simp [hsame i row (mem_of_lookup hrow).2]
      · rw [lookup_upsert_ne (h.key_new i) (h.key_update i) (Ne.symm hkey)]
        simp [hkey]
    change lookup key a (upserts key k new f is _) = _
    rw [ih, hfirst, List.reverse_cons, List.find?_append, Option.map_or, Option.or_assoc]

/-- In a series of different keys, each key is upserted at most once. -/
theorem Overwrites.lookup_upserts_of_nodup (his : (is.map k).Nodup) (a : κ) :
    lookup key a (upserts key k new f is rows) =
      (lookup k a is).elim (lookup key a rows) fun i =>
        some ((lookup key a rows).elim (new i) (f i)) := by
  induction is generalizing rows with
  | nil => rfl
  | cons i is ih =>
    rw [List.map_cons, List.nodup_cons] at his
    change lookup key a (upserts key k new f is _) = _
    rw [ih his.2]
    by_cases hkey : k i = a
    · have hnone : lookup k a is = none := by
        rw [lookup_eq_none]
        intro j hj hsame
        exact his.1 (List.mem_map.mpr ⟨j, hj, hsame.trans hkey.symm⟩)
      have hfirst : lookup k a (i :: is) = some i := by simp [lookup, hkey]
      subst hkey
      rw [hnone, hfirst]
      exact lookup_upsert (h.key_new i) (h.key_update i)
    · have hrest : lookup k a (i :: is) = lookup k a is := by simp [lookup, hkey]
      rw [hrest, lookup_upsert_ne (h.key_new i) (h.key_update i) (Ne.symm hkey)]

/-- Doing a series again changes nothing. -/
theorem Overwrites.upserts_upserts :
    upserts key k new f is (upserts key k new f is rows) = upserts key k new f is rows := by
  rw [h.upserts_eq_map fun i hi => h.keys_upserts hi]
  exact (List.map_congr_left fun row hrow => h.overwrite_upserts hrow).trans (List.map_id _)

/-- A series that has been cut short can be done again from its start. -/
theorem Overwrites.upserts_resume (hjs : js <+: is) :
    upserts key k new f is (upserts key k new f js rows) = upserts key k new f is rows := by
  obtain ⟨rest, rfl⟩ := hjs
  rw [upserts_append, upserts_append, h.upserts_upserts]

end Replay

end Keyed
