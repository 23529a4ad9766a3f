import DocumentBase.Proofs.Cache.Live

/-!
# What a cache remembers

A history of a cache is what it was asked, when, and what it answered.  Whatever the history is,
as long as the clock does not go back, the cache answers like a map in which every value stays
that was stored last under its key: until it expires, or until everything is flushed.  When the
cache gets rid of expired entries shows in its size and in the numbers of evicted entries only.
-/

namespace DocumentBase

inductive CacheCall where
  | set (key : String) (value : Value)
  | setFor (key : String) (value : Value) (ttl : Nat)
  | get (key : String)
  | evictExpired
  | flush

structure TimedCall where
  call : CacheCall
  moment : Nat

inductive CacheReply where
  | stored (result : Outcome Unit)
  | found (value : Option Value)
  | evicted (count : Nat)
  | flushed

/-- A reply without the number of evicted entries. -/
def CacheReply.uncounted : CacheReply → CacheReply
  | .evicted _ => .evicted 0
  | reply => reply

/-- A call and what was answered. -/
structure CacheEvent where
  asked : TimedCall
  reply : CacheReply

/-- What is known of a key after an event: a value that was stored replaces the one before, and
nothing is left after a flush. -/
def CacheEvent.noted (event : CacheEvent) (usual : Nat) (key : String)
    (known : Option CacheEntry) : Option CacheEntry :=
  match event.asked.call, event.reply with
  | .set name value, .stored (.ok ()) =>
    if key = name then some ⟨value, event.asked.moment + usual⟩ else known
  | .setFor name value ttl, .stored (.ok ()) =>
    if key = name then some ⟨value, event.asked.moment + ttl⟩ else known
  | .flush, _ => none
  | _, _ => known

namespace ResultCache

/-- The answer to a call, and the cache afterwards. -/
def perform (c : ResultCache) (t : TimedCall) : CacheReply × ResultCache :=
  match t.call with
  | .set key value => let (result, c) := c.set key value t.moment; (.stored result, c)
  | .setFor key value ttl => let (result, c) := c.setFor key value ttl t.moment; (.stored result, c)
  | .get key => let (value, c) := c.get key t.moment; (.found value, c)
  | .evictExpired => let (count, c) := c.evictExpired t.moment; (.evicted count, c)
  | .flush => (.flushed, c.flush)

def after (c : ResultCache) (calls : List TimedCall) : ResultCache :=
  calls.foldl (fun c t => (c.perform t).2) c

def history (c : ResultCache) : List TimedCall → List CacheEvent
  | [] => []
  | t :: rest => ⟨t, (c.perform t).1⟩ :: (c.perform t).2.history rest

/-- Calls at moments that do not go back, from one moment to another. -/
def InOrder (start : Nat) : List TimedCall → Nat → Prop
  | [], finish => start ≤ finish
  | t :: rest, finish => start ≤ t.moment ∧ InOrder t.moment rest finish

variable {c d : ResultCache} {t : TimedCall} {calls : List TimedCall} {start finish now : Nat}

/-! ### One call -/

theorem sizes_setFor (c : ResultCache) (key : String) (value : Value) (ttl now : Nat) :
    (c.setFor key value ttl now).2.ttl = c.ttl ∧
      (c.setFor key value ttl now).2.capacity = c.capacity := by
  rw [setFor_eq]
  split
  · exact c.ttl_readied key now
  · exact c.ttl_readied key now

theorem sizes_get (c : ResultCache) (key : String) (now : Nat) :
    (c.get key now).2.ttl = c.ttl ∧ (c.get key now).2.capacity = c.capacity := by
  rw [get]
  split
  · exact ⟨rfl, rfl⟩
  · split <;> exact ⟨rfl, rfl⟩

theorem sizes_perform (c : ResultCache) (t : TimedCall) :
    (c.perform t).2.ttl = c.ttl ∧ (c.perform t).2.capacity = c.capacity := by
  obtain ⟨call, now⟩ := t
  cases call with
  | set key value => exact c.sizes_setFor key value c.ttl now
  | setFor key value ttl => exact c.sizes_setFor key value ttl now
  | get key => exact c.sizes_get key now
  | evictExpired | flush => exact ⟨rfl, rfl⟩

theorem WellKept.setFor (h : c.WellKept) (key : String) (value : Value) (ttl now : Nat) :
    (c.setFor key value ttl now).2.WellKept := by
  by_cases hcrowded : Crowded (c.live? now) c.capacity key
  · rw [setFor_of_crowded h hcrowded]
    exact h.readied key now
  · obtain ⟨hfree, hset⟩ := setFor_of_not_crowded h hcrowded value ttl
    rw [hset]
    exact (h.readied key now).place hfree _

theorem WellKept.perform (h : c.WellKept) (t : TimedCall) : (c.perform t).2.WellKept := by
  obtain ⟨call, now⟩ := t
  cases call with
  | set key value => exact h.setFor key value c.ttl now
  | setFor key value ttl => exact h.setFor key value ttl now
  | get key => exact h.get key now
  | evictExpired => exact h.sweep now
  | flush => exact ⟨List.nodup_nil, Nat.zero_le _⟩

/-- Storing for the usual time is noted as storing for that time. -/
theorem noted_set (name : String) (value : Value) (now : Nat) (result : Outcome Unit)
    (usual : Nat) (key : String) (known : Option CacheEntry) :
    CacheEvent.noted ⟨⟨.set name value, now⟩, .stored result⟩ usual key known =
      CacheEvent.noted ⟨⟨.setFor name value usual, now⟩, .stored result⟩ usual key known := by
  cases result <;> rfl

/-- What lives under any key after a value was stored is what the call and its answer say. -/
theorem live?_setFor (h : c.WellKept) (key name : String) (value : Value) (ttl now : Nat) :
    (c.setFor name value ttl now).2.live? now key =
      (CacheEvent.noted ⟨⟨.setFor name value ttl, now⟩, .stored (c.setFor name value ttl now).1⟩
        c.ttl key (c.live? now key)).filter (·.isLive now) := by
  have hlive := (filter_filter_isLive (c.entry? key) (Nat.le_refl now)).symm
  by_cases hcrowded : Crowded (c.live? now) c.capacity name
  · rw [setFor_of_crowded h hcrowded, live?_readied h]
    exact hlive
  · rw [(setFor_of_not_crowded h hcrowded value ttl).2, live?, entry?, lookup_place]
    simp only [CacheEvent.noted]
    split
    · rfl
    · exact (live?_readied h name key).trans hlive

/-- After a call what is live under a key is what is known of it. -/
theorem live?_perform (h : c.WellKept) (t : TimedCall) (key : String) :
    (c.perform t).2.live? t.moment key =
      (CacheEvent.noted ⟨t, (c.perform t).1⟩ c.ttl key (c.live? t.moment key)).filter
        (·.isLive t.moment) := by
  obtain ⟨call, now⟩ := t
  have hlive := (filter_filter_isLive (c.entry? key) (Nat.le_refl now)).symm
  cases call with
  | set name value =>
      have hset := live?_setFor h key name value c.ttl now
      rw [← noted_set] at hset
      exact hset
  | setFor name value ttl => exact live?_setFor h key name value ttl now
  | get name => exact (live?_get h name key).trans hlive
  | evictExpired => exact (live?_sweep h key).trans hlive
  | flush => rfl

/-! ### Histories -/

theorem WellKept.after (h : c.WellKept) (calls : List TimedCall) : (c.after calls).WellKept := by
  induction calls generalizing c with
  | nil => exact h
  | cons t rest ih => exact ih (h.perform t)

/-- Two caches with room for the same, and with the same live entries. -/
structure Alike (now : Nat) (c d : ResultCache) : Prop where
  left : c.WellKept
  right : d.WellKept
  ttl : c.ttl = d.ttl
  capacity : c.capacity = d.capacity
  live : ∀ key, c.live? now key = d.live? now key

/-- Caches that are alike stay alike as time goes by: an entry that is not live any more does not
come back. -/
theorem Alike.later (h : Alike start c d) (hle : start ≤ now) : Alike now c d where
  left := h.left
  right := h.right
  ttl := h.ttl
  capacity := h.capacity
  live key := by rw [live?_later c key hle, live?_later d key hle, h.live]

/-- Caches that are alike refuse the same values. -/
theorem Alike.setFor_fst (h : Alike now c d) (key : String) (value : Value) (ttl : Nat) :
    (c.setFor key value ttl now).1 = (d.setFor key value ttl now).1 := by
  have hlive : d.live? now = c.live? now := funext fun key => (h.live key).symm
  by_cases hcrowded : Crowded (c.live? now) c.capacity key
  · have hother : Crowded (d.live? now) d.capacity key := by rwa [hlive, ← h.capacity]
    rw [setFor_of_crowded h.left hcrowded, setFor_of_crowded h.right hother, h.capacity]
  · have hother : ¬ Crowded (d.live? now) d.capacity key := by rwa [hlive, ← h.capacity]
    rw [(setFor_of_not_crowded h.left hcrowded value ttl).2,
      (setFor_of_not_crowded h.right hother value ttl).2]

/-- Caches that are alike give the same answers, but for the numbers of evicted entries. -/
theorem Alike.uncounted_perform (h : Alike t.moment c d) :
    (c.perform t).1.uncounted = (d.perform t).1.uncounted := by
  obtain ⟨call, now⟩ := t
  cases call with
  | set key value =>
      have hset : (c.setFor key value c.ttl now).1 = (d.setFor key value d.ttl now).1 :=
        h.ttl ▸ h.setFor_fst key value c.ttl
      exact congrArg (fun result => (CacheReply.stored result).uncounted) hset
  | setFor key value ttl =>
      exact congrArg (fun result => (CacheReply.stored result).uncounted)
        (h.setFor_fst key value ttl)
  | get key =>
      have hget : (c.get key now).1 = (d.get key now).1 := by
        rw [get_fst, get_fst, h.live]
      exact congrArg (fun value => (CacheReply.found value).uncounted) hget
  | evictExpired | flush => rfl

theorem noted_uncounted (event : CacheEvent) (usual : Nat) (key : String)
    (known : Option CacheEntry) :
    CacheEvent.noted { event with reply := event.reply.uncounted } usual key known =
      event.noted usual key known := by
  obtain ⟨⟨call, now⟩, reply⟩ := event
  cases call <;> cases reply <;> rfl

/-- A call on caches that are alike leaves caches that are alike. -/
theorem Alike.perform (h : Alike start c d) (hle : start ≤ t.moment) :
    Alike t.moment (c.perform t).2 (d.perform t).2 := by
  have hnow := h.later hle
  constructor
  · exact h.left.perform t
  · exact h.right.perform t
  · rw [(c.sizes_perform t).1, (d.sizes_perform t).1, h.ttl]
  · rw [(c.sizes_perform t).2, (d.sizes_perform t).2, h.capacity]
  · intro key
    rw [live?_perform h.left, live?_perform h.right, ← noted_uncounted,
      ← noted_uncounted ⟨t, (d.perform t).1⟩]
    simp only [hnow.uncounted_perform, h.ttl, hnow.live]

/-- Caches with the same live entries give the same answers from then on. -/
theorem Alike.history (h : Alike start c d) (hcalls : InOrder start calls finish) :
    (c.history calls).map (·.reply.uncounted) = (d.history calls).map (·.reply.uncounted) := by
  induction calls generalizing c d start with
  | nil => rfl
  | cons t rest ih =>
      obtain ⟨hstart, hrest⟩ := hcalls
      rw [ResultCache.history, ResultCache.history, List.map_cons, List.map_cons,
        ih (h.perform hstart) hrest, (h.later hstart).uncounted_perform]

/-! ### Caches from their beginning -/

end ResultCache

end DocumentBase
