import DocumentBase.Cache

/-!
# Entries of a cache

Reading a cache may drop entries and adds none.  Storing a value may drop entries and adds at
most the one under the key, so whatever holds of all entries of a cache and of the new one holds
of all entries afterwards.
-/

namespace DocumentBase.ResultCache

variable {c : ResultCache} {key : String} {value : Value} {now : Nat}
  {entry : CacheEntry} {found : String × CacheEntry}

theorem mem_of_entry? (h : c.entry? key = some entry) : (key, entry) ∈ c.entries := by
  obtain ⟨before, after, hentries, -⟩ := List.lookup_eq_some_iff.mp h
  rw [hentries]
  simp

theorem mem_of_mem_sweep (h : found ∈ (c.sweep now).entries) : found ∈ c.entries :=
  (List.mem_filter.mp h).1

/-- Reading a key may drop its entry, but adds none. -/
theorem mem_of_mem_get (h : found ∈ (c.get key now).2.entries) : found ∈ c.entries := by
  rw [get] at h
  split at h
  · exact h
  · split at h
    · exact h
    · exact (List.mem_filter.mp h).1

/-- What is read under a key is the value of an entry. -/
theorem exists_mem_of_get (h : (c.get key now).1 = some value) :
    ∃ entry, (key, entry) ∈ c.entries ∧ entry.value = value := by
  rw [get] at h
  split at h
  · cases h
  next entry hentry =>
    split at h
    · exact ⟨entry, mem_of_entry? hentry, Option.some.inj h⟩
    · cases h

theorem mem_place {entries : List (String × CacheEntry)}
    (h : found ∈ place entries key entry) : found ∈ entries ∨ found = (key, entry) := by
  induction entries with
  | nil => exact .inr (List.mem_singleton.mp h)
  | cons first rest ih =>
      obtain ⟨other, old⟩ := first
      rw [place] at h
      split at h
      · rcases List.mem_cons.mp h with rfl | h
        · exact .inr rfl
        · exact .inl (List.mem_cons_of_mem _ h)
      · rcases List.mem_cons.mp h with rfl | h
        · exact .inl List.mem_cons_self
        · exact (ih h).imp_left (List.mem_cons_of_mem _)

/-- Storing begins with a sweep or without one. -/
theorem exists_setFor (c : ResultCache) (key : String) (value : Value) (ttl now : Nat) :
    ∃ begun : ResultCache, (∀ found ∈ begun.entries, found ∈ c.entries) ∧
      c.setFor key value ttl now =
        if begun.isFullFor key then (.error (.backend (.cacheFull begun.capacity)), begun)
        else (.ok (), { begun with entries := place begun.entries key ⟨value, now + ttl⟩ }) := by
  by_cases hsweep : (c.isFullFor key || decide (c.sweepInterval ≤ now - c.lastSweep)) = true
  · exact ⟨c.sweep now, fun _ => mem_of_mem_sweep, by rw [setFor, if_pos hsweep]⟩
  · exact ⟨c, fun _ h => h, by rw [setFor, if_neg hsweep]⟩

/-- All entries after a value is stored were there before, or are the new one. -/
theorem mem_of_mem_set (h : found ∈ (c.set key value now).2.entries) :
    found ∈ c.entries ∨ found = (key, ⟨value, now + c.ttl⟩) := by
  obtain ⟨begun, hbegun, hset⟩ := exists_setFor c key value c.ttl now
  rw [set, hset] at h
  split at h
  · exact .inl (hbegun _ h)
  · exact (mem_place h).imp_left (hbegun _)

end DocumentBase.ResultCache
