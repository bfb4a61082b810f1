import Mathlib
import FormatAudit.Proofs.FormatTable

/-!
# Putting entries into tables

A table holds each key once, at the place where the key first came (`Distinct`). Putting in many entries one after the other
keeps this, lets the last entry of a key win (`get?_putAll`), and leaves the keys that were there at their places
(`keys_prefix_putAll`). Entries can be gathered in a table of their own before they are put in (`putAll_putAll`).
-/

namespace FormatAudit.Table

variable {κ α : Type}

/-- The keys of a table, in order. -/
def keys (t : Table κ α) : List κ :=
  t.map Prod.fst

/-- Whether every key occurs once. -/
def Distinct (t : Table κ α) : Prop :=
  t.keys.Nodup

instance [DecidableEq κ] (t : Table κ α) : Decidable t.Distinct :=
  inferInstanceAs (Decidable t.keys.Nodup)

@[simp]
theorem keys_nil : keys ([] : Table κ α) = [] := rfl

@[simp]
theorem keys_cons (e : κ × α) (t : Table κ α) : keys (e :: t) = e.1 :: keys t := rfl

theorem distinct_nil : Distinct ([] : Table κ α) :=
  List.nodup_nil

/-- The keys of a table are distinct if the first one is new and the others are distinct. -/
theorem distinct_cons {e : κ × α} {t : Table κ α} : Distinct (e :: t) ↔ e.1 ∉ keys t ∧ Distinct t :=
  List.nodup_cons

/-- The key of an entry is a key of the table. -/
theorem mem_keys_of_mem {e : κ × α} {t : Table κ α} (h : e ∈ t) : e.1 ∈ keys t :=
  List.mem_map_of_mem h

variable [BEq κ]

@[simp]
theorem putAll_nil (t : Table κ α) : putAll t [] = t := rfl

@[simp]
theorem putAll_cons (t : Table κ α) (e : κ × α) (entries : List (κ × α)) :
    putAll t (e :: entries) = putAll (put e.1 e.2 t) entries := rfl

/-- Two lists of entries are put one after the other. -/
theorem putAll_append (t : Table κ α) (entries more : List (κ × α)) :
    putAll t (entries ++ more) = putAll (putAll t entries) more :=
  List.foldl_append

/-- After one entry is put, every entry is that one or was there before. -/
theorem mem_of_mem_put {k : κ} {a : α} {t : Table κ α} {e : κ × α} (h : e ∈ put k a t) : e = (k, a) ∨ e ∈ t := by
  induction t with
  | nil => exact .inl (List.mem_singleton.1 h)
  | cons e' t ih =>
    rw [put] at h
    split at h
    · rcases List.mem_cons.1 h with rfl | h
      · exact .inl rfl
      · exact .inr (List.mem_cons_of_mem _ h)
    · rcases List.mem_cons.1 h with rfl | h
      · exact .inr List.mem_cons_self
      · exact (ih h).imp_right (List.mem_cons_of_mem _)

/-- After entries are put, every entry was there before or is one of them. -/
theorem mem_of_mem_putAll {t : Table κ α} {entries : List (κ × α)} {e : κ × α} (h : e ∈ putAll t entries) :
    e ∈ t ∨ e ∈ entries := by
  induction entries generalizing t with
  | nil => exact .inl h
  | cons e' entries ih =>
    rcases ih h with h | h
    · rcases mem_of_mem_put h with rfl | h
      · exact .inr List.mem_cons_self
      · exact .inl h
    · exact .inr (List.mem_cons_of_mem _ h)

variable [LawfulBEq κ]

/-! ## One entry -/

/-- A new key goes to the end. -/
theorem put_of_not_mem {k : κ} (a : α) {t : Table κ α} (h : k ∉ keys t) : put k a t = t ++ [(k, a)] := by
  induction t with
  | nil => rfl
  | cons e t ih =>
    obtain ⟨hne, ht⟩ := not_or.1 (mt List.mem_cons.2 h)
    have hkey : ¬(e.1 == k) = true := fun hk => hne (eq_of_beq hk).symm
    rw [put, if_neg hkey, ih ht]
    rfl

/-- Putting a key that is there changes no key. -/
theorem keys_put_of_mem {k : κ} (a : α) {t : Table κ α} (h : k ∈ keys t) : keys (put k a t) = keys t := by
  induction t with
  | nil => cases h
  | cons e t ih =>
    rw [put]
    split
    · rename_i hkey
      rw [keys_cons, keys_cons, eq_of_beq hkey]
    · rename_i hkey
      have ht : k ∈ keys t := (List.mem_cons.1 h).resolve_left (fun hk => hkey (beq_iff_eq.2 hk.symm))
      rw [keys_cons, keys_cons, ih ht]

/-- Putting a new key adds it at the end. -/
theorem keys_put_of_not_mem {k : κ} (a : α) {t : Table κ α} (h : k ∉ keys t) : keys (put k a t) = keys t ++ [k] := by
  rw [put_of_not_mem a h]
  exact List.map_append

/-- The keys after an entry is put are its key and the keys before. -/
theorem mem_keys_put {k k' : κ} {a : α} {t : Table κ α} : k' ∈ keys (put k a t) ↔ k' = k ∨ k' ∈ keys t := by
  by_cases h : k ∈ keys t
  · rw [keys_put_of_mem a h]
    constructor
    · exact Or.inr
    · rintro (rfl | hk')
      · exact h
      · exact hk'
  · rw [keys_put_of_not_mem a h, List.mem_append, List.mem_singleton, or_comm]

/-- Putting an entry never moves a key. -/
theorem keys_prefix_put (k : κ) (a : α) (t : Table κ α) : keys t <+: keys (put k a t) := by
  by_cases h : k ∈ keys t
  · rw [keys_put_of_mem a h]
  · rw [keys_put_of_not_mem a h]
    exact List.prefix_append _ _

/-- Putting an entry keeps the keys distinct. -/
theorem Distinct.put {t : Table κ α} (ht : t.Distinct) (k : κ) (a : α) : Distinct (Table.put k a t) := by
  unfold Distinct at ht ⊢
  by_cases h : k ∈ keys t
  · rwa [keys_put_of_mem a h]
  · rw [keys_put_of_not_mem a h]
    refine List.nodup_append.2 ⟨ht, List.nodup_singleton k, ?_⟩
    rintro x hx y hy rfl
    exact h (List.mem_singleton.1 hy ▸ hx)

/-- Of two values that are put under one key, the later one stays. -/
theorem put_put (k : κ) (a b : α) (t : Table κ α) : put k a (put k b t) = put k a t := by
  induction t with
  | nil => simp [put]
  | cons e t ih =>
    rw [put, put]
    split
    · rw [put, if_pos (beq_self_eq_true k)]
    · rename_i hkey
      rw [put, if_neg hkey, ih]

/-- A key that is there can be given its value before or after another key. -/
theorem put_comm_of_mem {k k' : κ} (a a' : α) {t : Table κ α} (hk : k ∈ keys t) (hne : k ≠ k') :
    put k a (put k' a' t) = put k' a' (put k a t) := by
  induction t with
  | nil => cases hk
  | cons e t ih =>
    by_cases he : e.1 = k
    · have hother : (k == k') = false := beq_eq_false_iff_ne.2 hne
      simp [put, he, hother]
    · have hkey : (e.1 == k) = false := beq_eq_false_iff_ne.2 he
      have ht : k ∈ keys t := (List.mem_cons.1 hk).resolve_left (Ne.symm he)
      by_cases he' : e.1 = k'
      · have hother : (k' == k) = false := beq_eq_false_iff_ne.2 (Ne.symm hne)
        simp [put, he', hother]
      · have hkey' : (e.1 == k') = false := beq_eq_false_iff_ne.2 he'
        simp [put, hkey, hkey', ih ht]

/-- Giving a key the value that it has changes nothing. -/
theorem put_of_get? {k : κ} {a : α} {t : Table κ α} (h : get? t k = some a) : put k a t = t := by
  induction t with
  | nil => cases h
  | cons e t ih =>
    rw [get?, List.lookup_cons] at h
    rw [put]
    split
    · rename_i hkey
      obtain rfl : e.1 = k := eq_of_beq hkey
      rw [beq_self_eq_true] at h
      cases h
      rfl
    · rename_i hkey
      have hkey' : (k == e.1) = false := beq_eq_false_iff_ne.2 (fun hk => hkey (beq_iff_eq.2 hk.symm))
      rw [hkey'] at h
      rw [ih h]

/-- An entry is found under its key if the keys are distinct. -/
theorem get?_of_mem {t : Table κ α} (ht : t.Distinct) {e : κ × α} (h : e ∈ t) : get? t e.1 = some e.2 := by
  induction t with
  | nil => cases h
  | cons e' t ih =>
    obtain ⟨he', ht⟩ := distinct_cons.1 ht
    rw [get?, List.lookup_cons]
    rcases List.mem_cons.1 h with rfl | h
    · rw [beq_self_eq_true]
    · have hkey : (e.1 == e'.1) = false := beq_eq_false_iff_ne.2 (fun hk => he' (hk ▸ mem_keys_of_mem h))
      rw [hkey]
      exact ih ht h

/-! ## Many entries -/

/-- Putting entries never moves a key. -/
theorem keys_prefix_putAll (t : Table κ α) (entries : List (κ × α)) : keys t <+: keys (putAll t entries) := by
  induction entries generalizing t with
  | nil => exact List.prefix_refl _
  | cons e entries ih => exact (keys_prefix_put e.1 e.2 t).trans (ih _)

/-- Putting entries keeps the keys distinct. -/
theorem Distinct.putAll {t : Table κ α} (ht : t.Distinct) (entries : List (κ × α)) : Distinct (Table.putAll t entries) := by
  induction entries generalizing t with
  | nil => exact ht
  | cons e entries ih => exact ih (ht.put e.1 e.2)

/-- The value of a key is that of its last entry, else the value that it had. -/
theorem get?_putAll (t : Table κ α) (entries : List (κ × α)) (k : κ) :
    get? (putAll t entries) k = (entries.reverse.lookup k).or (get? t k) := by
  induction entries generalizing t with
  | nil => rfl
  | cons e entries ih =>
    rw [putAll_cons, ih, get?_put, List.reverse_cons, List.lookup_append]
    cases hlast : entries.reverse.lookup k with
    | some a => rfl
    | none =>
      rw [Option.none_or, Option.none_or, List.lookup_cons, List.lookup_nil]
      cases k == e.1 <;> rfl

/-- An entry whose key is there may be put before or after entries with other keys. -/
theorem put_putAll_of_mem {k : κ} (a : α) {t : Table κ α} {entries : List (κ × α)} (hk : k ∈ keys t)
    (hnew : k ∉ keys entries) : put k a (putAll t entries) = putAll (put k a t) entries := by
  induction entries generalizing t with
  | nil => rfl
  | cons e entries ih =>
    obtain ⟨hne, hentries⟩ := not_or.1 (mt List.mem_cons.2 hnew)
    rw [putAll_cons, putAll_cons, ih (mem_keys_put.2 (.inr hk)) hentries, put_comm_of_mem a e.2 hk hne]

/-- Putting an entry into what is put is putting it last. -/
theorem putAll_put (t : Table κ α) {l : Table κ α} (hl : l.Distinct) (k : κ) (a : α) :
    putAll t (put k a l) = put k a (putAll t l) := by
  induction l generalizing t with
  | nil => rfl
  | cons e l ih =>
    obtain ⟨he, hl⟩ := distinct_cons.1 hl
    rw [put]
    split
    · -- the key has its place in `t` from here on, so its new value can be put in at once
      rename_i hkey
      obtain rfl : e.1 = k := eq_of_beq hkey
      rw [putAll_cons, putAll_cons, put_putAll_of_mem a (mem_keys_put.2 (.inl rfl)) he, put_put]
    · rw [putAll_cons, putAll_cons, ih _ hl]

/-- Putting in a table and then more entries is putting in the table with these entries. -/
theorem putAll_putAll (t : Table κ α) {l : Table κ α} (hl : l.Distinct) (more : List (κ × α)) :
    putAll t (putAll l more) = putAll (putAll t l) more := by
  induction more generalizing l with
  | nil => rfl
  | cons e more ih => rw [putAll_cons, putAll_cons, ih (hl.put e.1 e.2), putAll_put t hl]

/-- Putting a table into nothing gives the table. -/
theorem putAll_empty {l : Table κ α} (hl : l.Distinct) : putAll [] l = l := by
  induction l using List.reverseRecOn with
  | nil => rfl
  | append_singleton l e ih =>
    rw [Distinct, keys, List.map_append] at hl
    obtain ⟨hl, -, hnew⟩ := List.nodup_append.1 hl
    rw [putAll_append, ih hl, putAll_cons, putAll_nil]
    apply put_of_not_mem e.2
    intro hmem
    exact hnew e.1 hmem e.1 (List.mem_singleton.2 rfl) rfl

/-- Where the entries have distinct keys, the value of a key is the one among them, else the value that it had. -/
theorem get?_putAll_of_distinct (t : Table κ α) {l : Table κ α} (hl : l.Distinct) (k : κ) :
    get? (putAll t l) k = (get? l k).or (get? t k) := by
  have hlast : get? l k = l.reverse.lookup k := by
    have hself := get?_putAll [] l k
    rwa [putAll_empty hl, show get? ([] : Table κ α) k = none from rfl, Option.or_none] at hself
  rw [get?_putAll, hlast]

/-- Entries that a table has already change nothing. -/
theorem putAll_of_get? {t : Table κ α} {entries : List (κ × α)} (h : ∀ e ∈ entries, get? t e.1 = some e.2) :
    putAll t entries = t := by
  induction entries with
  | nil => rfl
  | cons e entries ih =>
    obtain ⟨he, hentries⟩ := List.forall_mem_cons.1 h
    rw [putAll_cons, put_of_get? he, ih hentries]

/-- Putting a table into itself changes nothing. -/
theorem putAll_self {l : Table κ α} (hl : l.Distinct) : putAll l l = l :=
  putAll_of_get? (fun _ he => get?_of_mem hl he)

end FormatAudit.Table
