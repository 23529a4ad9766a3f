import Mathlib.Data.Finset.Card
import Mathlib.Data.List.Nodup
import DocumentBase.Proofs.Cache.Entries

/-!
# Live entries

Of the entries of a cache only those count that have not expired.  Reading, sweeping and dropping
leave them as they are, and storing changes at most the one under its key.  Expired entries take
up room until they are dropped, but no value is turned away for them: a cache that looks full is
swept before it refuses.
-/

namespace DocumentBase

def CacheEntry.isLive (entry : CacheEntry) (now : Nat) : Bool :=
  now < entry.expires

namespace ResultCache

variable {c : ResultCache} {key other : String} {value : Value} {now later : Nat}
  {entry : CacheEntry}

/-- The entry under a key, if it has not expired. -/
def live? (c : ResultCache) (now : Nat) (key : String) : Option CacheEntry :=
  (c.entry? key).filter (·.isLive now)

/-- Entries with different keys, and no more of them than there is room for. -/
structure WellKept (c : ResultCache) : Prop where
  distinct : (c.entries.map Prod.fst).Nodup
  fits : c.size ≤ c.capacity

theorem entry?_eq_some_iff (h : c.WellKept) :
    c.entry? key = some entry ↔ (key, entry) ∈ c.entries := by
  refine ⟨fun hfound => mem_of_entry? hfound, fun hmem => ?_⟩
  cases hfound : c.entry? key with
  | none =>
      have habsent := List.lookup_eq_none_iff.mp hfound _ hmem
      simp at habsent
  | some found =>
      have hstored := mem_of_entry? hfound
      have hsame := List.inj_on_of_nodup_map h.distinct hstored hmem rfl
      rw [(Prod.mk.inj hsame).2]

/-- In a well-kept cache what lives under a key is the one entry with that key, if it lives. -/
theorem live?_eq_some_iff (h : c.WellKept) :
    c.live? now key = some entry ↔ (key, entry) ∈ c.entries ∧ now < entry.expires := by
  rw [live?, Option.filter_eq_some_iff, entry?_eq_some_iff h, CacheEntry.isLive, decide_eq_true_eq]

theorem isLive_of_le (hle : now ≤ later) (hlive : entry.isLive later = true) :
    entry.isLive now = true := by
  simp only [CacheEntry.isLive, decide_eq_true_eq] at *
  omega

/-- What is live later on is live before. -/
theorem filter_filter_isLive (found : Option CacheEntry) (hle : now ≤ later) :
    (found.filter (·.isLive now)).filter (·.isLive later) = found.filter (·.isLive later) := by
  apply Option.ext
  intro entry
  simp only [Option.filter_eq_some_iff]
  exact ⟨fun ⟨⟨hfound, _⟩, hlive⟩ => ⟨hfound, hlive⟩,
    fun ⟨hfound, hlive⟩ => ⟨⟨hfound, isLive_of_le hle hlive⟩, hlive⟩⟩

/-- Of what lives now, that lives later which has not expired by then. -/
theorem live?_later (c : ResultCache) (key : String) (hle : now ≤ later) :
    c.live? later key = (c.live? now key).filter (·.isLive later) :=
  (filter_filter_isLive _ hle).symm

/-- Caches with the same live entries under a key look the same there. -/
theorem live?_eq_of_mem_iff {d : ResultCache} (hc : c.WellKept) (hd : d.WellKept)
    (h : ∀ entry, now < entry.expires → ((key, entry) ∈ c.entries ↔ (key, entry) ∈ d.entries)) :
    c.live? now key = d.live? now key := by
  apply Option.ext
  intro entry
  rw [live?_eq_some_iff hc, live?_eq_some_iff hd]
  exact and_congr_left (h entry)

/-! ### Dropping entries -/

theorem WellKept.filter (h : c.WellKept) (keep : String × CacheEntry → Bool) (lastSweep : Nat) :
    WellKept { c with entries := c.entries.filter keep, lastSweep } := by
  constructor
  · exact h.distinct.sublist (List.filter_sublist.map Prod.fst)
  · exact (List.length_filter_le _ _).trans h.fits

theorem WellKept.sweep (h : c.WellKept) (now : Nat) : (c.sweep now).WellKept :=
  h.filter _ now

theorem WellKept.drop (h : c.WellKept) (key : String) : (c.drop key).WellKept :=
  h.filter _ c.lastSweep

theorem mem_sweep_iff : (key, entry) ∈ (c.sweep now).entries ↔
    (key, entry) ∈ c.entries ∧ now < entry.expires := by
  simp [sweep]

/-- A sweep takes nothing away that lives. -/
theorem live?_sweep (h : c.WellKept) (key : String) :
    (c.sweep now).live? now key = c.live? now key := by
  refine live?_eq_of_mem_iff (h.sweep now) h fun entry hlive => ?_
  rw [mem_sweep_iff, and_iff_left hlive]

theorem WellKept.get (h : c.WellKept) (key : String) (now : Nat) :
    (c.get key now).2.WellKept := by
  rw [ResultCache.get]
  split
  · exact h
  · split
    · exact h
    · exact h.drop key

/-- Reading a key returns what lives under it. -/
theorem get_fst (c : ResultCache) (key : String) (now : Nat) :
    (c.get key now).1 = (c.live? now key).map (·.value) := by
  rw [get, live?]
  cases c.entry? key with
  | none => rfl
  | some entry =>
      by_cases hlive : now < entry.expires
      · simp [hlive, CacheEntry.isLive]
      · simp [hlive, CacheEntry.isLive, Nat.not_lt.mp hlive]

/-- Reading drops at most an entry that has expired. -/
theorem live?_get (h : c.WellKept) (key other : String) :
    (c.get key now).2.live? now other = c.live? now other := by
  refine live?_eq_of_mem_iff (h.get key now) h fun entry hlive => ?_
  rw [get]
  split
  · exact Iff.rfl
  next found hfound =>
    split
    · exact Iff.rfl
    next hexpired =>
      have hother (hmem : (other, entry) ∈ c.entries) : other ≠ key := by
        rintro rfl
        rw [(entry?_eq_some_iff h).mpr hmem, Option.some_inj] at hfound
        exact hexpired (hfound ▸ hlive)
      simp only [drop, List.mem_filter, decide_eq_true_eq]
      exact ⟨And.left, fun hmem => ⟨hmem, hother hmem⟩⟩

/-! ### Placing entries -/

theorem lookup_place (entries : List (String × CacheEntry)) (key other : String)
    (entry : CacheEntry) :
    (place entries key entry).lookup other =
      if other = key then some entry else entries.lookup other := by
  have hcons (name : String) (found : CacheEntry) (rest : List (String × CacheEntry)) :
      ((name, found) :: rest).lookup other =
        if other = name then some found else rest.lookup other := by
    by_cases h : other = name
    · simp [h]
    · have hbeq : (other == name) = false := by simpa using h
      simp [List.lookup_cons, h, hbeq]
  induction entries with
  | nil => rw [place, hcons]
  | cons first rest ih =>
      obtain ⟨name, old⟩ := first
      rw [place]
      by_cases hname : name = key
      · subst hname
        rw [if_pos rfl, hcons, hcons]
        split <;> rfl
      · rw [if_neg hname, hcons, hcons, ih]
        by_cases h : other = name
        · subst h
          simp [hname]
        · simp [h]

/-- An entry takes the place of the one with its key, or the last place. -/
theorem keys_place (entries : List (String × CacheEntry)) (key : String) (entry : CacheEntry) :
    (place entries key entry).map Prod.fst =
      if key ∈ entries.map Prod.fst then entries.map Prod.fst
      else entries.map Prod.fst ++ [key] := by
  induction entries with
  | nil => rfl
  | cons first rest ih =>
      obtain ⟨name, old⟩ := first
      rw [place]
      by_cases hname : name = key
      · simp [hname]
      · have hkey : key ≠ name := fun h => hname h.symm
        rw [if_neg hname, List.map_cons, ih, List.map_cons]
        simp only [List.mem_cons, hkey, false_or]
        split <;> rfl

theorem mem_keys_iff : key ∈ c.entries.map Prod.fst ↔ (c.entry? key).isNone = false := by
  rw [Option.isNone_eq_false_iff, entry?, List.lookup_isSome_iff, List.mem_map]
  exact exists_congr fun found => and_congr_right fun _ => by rw [beq_iff_eq, eq_comm]

/-- An entry for which there is room leaves a cache well kept. -/
theorem WellKept.place (h : c.WellKept) (hroom : c.isFullFor key = false) (entry : CacheEntry) :
    WellKept { c with entries := place c.entries key entry } := by
  have hkeys := keys_place c.entries key entry
  by_cases hmem : key ∈ c.entries.map Prod.fst
  · rw [if_pos hmem] at hkeys
    constructor
    · exact hkeys ▸ h.distinct
    · have hlength := congrArg List.length hkeys
      rw [List.length_map, List.length_map] at hlength
      exact hlength.trans_le h.fits
  · rw [if_neg hmem] at hkeys
    constructor
    · rw [hkeys, List.nodup_append]
      refine ⟨h.distinct, List.nodup_singleton key, fun name hname other hother => ?_⟩
      rintro rfl
      exact hmem (List.mem_singleton.mp hother ▸ hname)
    · have hlength := congrArg List.length hkeys
      rw [List.length_map, List.length_append, List.length_map, List.length_singleton] at hlength
      have habsent : (c.entry? key).isNone = true := by
        simpa [mem_keys_iff] using hmem
      rw [isFullFor, habsent, Bool.and_true, decide_eq_false_iff_not, Nat.not_le] at hroom
      exact hlength.trans_le hroom

/-! ### Storing -/

/-- A key has no live entry, and as many others as there is room for have one. -/
def Crowded (live : String → Option CacheEntry) (capacity : Nat) (key : String) : Prop :=
  live key = none ∧
    ∃ others : Finset String, capacity ≤ others.card ∧
      ∀ other ∈ others, other ≠ key ∧ (live other).isSome = true

/-- A cache that is swept refuses a key exactly if it is crowded with live entries. -/
theorem isFullFor_sweep_iff (h : c.WellKept) :
    (c.sweep now).isFullFor key = true ↔ Crowded (c.live? now) c.capacity key := by
  have hswept := h.sweep now
  have hkeys : ∀ other, other ∈ (c.sweep now).entries.map Prod.fst ↔
      (c.live? now other).isSome = true := by
    intro other
    rw [Option.isSome_iff_exists, List.mem_map]
    constructor
    · rintro ⟨⟨_, entry⟩, hmem, rfl⟩
      exact ⟨entry, (live?_eq_some_iff h).mpr (mem_sweep_iff.mp hmem)⟩
    · rintro ⟨entry, hentry⟩
      exact ⟨_, mem_sweep_iff.mpr ((live?_eq_some_iff h).mp hentry), rfl⟩
  have hcard : ((c.sweep now).entries.map Prod.fst).toFinset.card = (c.sweep now).size := by
    rw [List.toFinset_card_of_nodup hswept.distinct, List.length_map]
    rfl
  have habsent :
      (ResultCache.entry? (c.sweep now) key).isNone = true ↔ c.live? now key = none := by
    rw [← Option.isNone_iff_eq_none, ← not_iff_not, Bool.not_eq_true, Bool.not_eq_true,
      ← mem_keys_iff, hkeys, Option.isNone_eq_false_iff]
  rw [isFullFor, Bool.and_eq_true, decide_eq_true_eq, habsent, and_comm, Crowded]
  refine and_congr_right fun hnone => ⟨fun hfull => ?_, ?_⟩
  · refine ⟨((c.sweep now).entries.map Prod.fst).toFinset, hcard ▸ hfull, fun other hother => ?_⟩
    have hlive := (hkeys other).mp (List.mem_toFinset.mp hother)
    refine ⟨?_, hlive⟩
    rintro rfl
    simp [hnone] at hlive
  · rintro ⟨others, hmany, hothers⟩
    have hsubset : others ⊆ ((c.sweep now).entries.map Prod.fst).toFinset :=
      fun other hother => List.mem_toFinset.mpr ((hkeys other).mpr (hothers other hother).2)
    exact hmany.trans (hcard ▸ Finset.card_le_card hsubset)

/-- The cache that a value is stored in: swept if it looks full, or if it is time to. -/
def readied (c : ResultCache) (key : String) (now : Nat) : ResultCache :=
  if c.isFullFor key || c.sweepInterval ≤ now - c.lastSweep then c.sweep now else c

/-- Storing readies the cache, and then it fails or puts the entry in its place. -/
theorem setFor_eq (c : ResultCache) (key : String) (value : Value) (ttl now : Nat) :
    c.setFor key value ttl now =
      if (c.readied key now).isFullFor key then
        (.error (.backend (.cacheFull (c.readied key now).capacity)), c.readied key now)
      else
        (.ok (), { c.readied key now with
          entries := place (c.readied key now).entries key ⟨value, now + ttl⟩ }) := rfl

/-- A cache is swept before a value is stored, or it had room and no sweep was due. -/
theorem readied_cases (c : ResultCache) (key : String) (now : Nat) :
    c.readied key now = c.sweep now ∨ c.readied key now = c ∧ c.isFullFor key = false := by
  rw [readied]
  split
  · exact .inl rfl
  next hready =>
    rw [Bool.or_eq_true, not_or, Bool.not_eq_true] at hready
    exact .inr ⟨rfl, hready.1⟩

theorem WellKept.readied (h : c.WellKept) (key : String) (now : Nat) :
    (c.readied key now).WellKept := by
  rcases c.readied_cases key now with hready | ⟨hready, -⟩
  · rw [hready]
    exact h.sweep now
  · rwa [hready]

/-- Readying a cache takes nothing away that lives. -/
theorem live?_readied (h : c.WellKept) (key other : String) :
    (c.readied key now).live? now other = c.live? now other := by
  rcases c.readied_cases key now with hready | ⟨hready, -⟩
  · rw [hready, live?_sweep h]
  · rw [hready]

theorem ttl_readied (c : ResultCache) (key : String) (now : Nat) :
    (c.readied key now).ttl = c.ttl ∧ (c.readied key now).capacity = c.capacity := by
  rcases c.readied_cases key now with hready | ⟨hready, -⟩
  · rw [hready]
    exact ⟨rfl, rfl⟩
  · rw [hready]
    exact ⟨rfl, rfl⟩

/-- Where there is room before a sweep, there is room after it: the entry under the key can only
be dropped together with its place. -/
theorem isFullFor_sweep_of_room (h : c.WellKept) (hroom : c.isFullFor key = false) :
    (c.sweep now).isFullFor key = false := by
  rw [isFullFor, Bool.and_eq_false_iff, decide_eq_false_iff_not, Nat.not_le] at hroom ⊢
  rcases hroom with hsmall | hpresent
  · exact .inl ((List.length_filter_le _ _).trans_lt hsmall)
  · rw [← mem_keys_iff] at hpresent ⊢
    by_cases hkept : key ∈ (c.sweep now).entries.map Prod.fst
    · exact .inr hkept
    · obtain ⟨⟨_, entry⟩, hmem, rfl⟩ := List.mem_map.mp hpresent
      have hdropped : (c.sweep now).entries.length < c.entries.length := by
        refine List.length_filter_lt_length_iff_exists.mpr ⟨_, hmem, fun hlive => hkept ?_⟩
        exact List.mem_map_of_mem (f := Prod.fst) (List.mem_filter.mpr ⟨hmem, hlive⟩)
      exact .inl (hdropped.trans_le h.fits)

/-- A cache is full after it is readied only if it is full of entries that live. -/
theorem isFullFor_readied (h : c.WellKept) (key : String) (now : Nat) :
    (c.readied key now).isFullFor key = (c.sweep now).isFullFor key := by
  rcases c.readied_cases key now with hready | ⟨hready, hroom⟩
  · rw [hready]
  · rw [hready, hroom, isFullFor_sweep_of_room h hroom]

/-- A crowded cache refuses a value, and is as it was but for expired entries. -/
theorem setFor_of_crowded (h : c.WellKept) (hcrowded : Crowded (c.live? now) c.capacity key)
    (value : Value) (ttl : Nat) :
    c.setFor key value ttl now =
      (.error (.backend (.cacheFull c.capacity)), c.readied key now) := by
  have hfull := (isFullFor_readied h key now).trans ((isFullFor_sweep_iff h).mpr hcrowded)
  rw [setFor_eq, if_pos hfull, (c.ttl_readied key now).2]

theorem setFor_of_not_crowded (h : c.WellKept)
    (hroom : ¬ Crowded (c.live? now) c.capacity key) (value : Value) (ttl : Nat) :
    (c.readied key now).isFullFor key = false ∧
      c.setFor key value ttl now = (.ok (), { c.readied key now with
        entries := place (c.readied key now).entries key ⟨value, now + ttl⟩ }) := by
  have hfree : (c.readied key now).isFullFor key = false := by
    rw [isFullFor_readied h, ← Bool.not_eq_true, isFullFor_sweep_iff h]
    exact hroom
  exact ⟨hfree, by rw [setFor_eq, hfree, if_neg Bool.false_ne_true]⟩

end ResultCache

end DocumentBase
