import Mathlib
import DocumentBase.Cache
import DocumentBase.Proofs.Json.Text

/-!
# Keys of cached results

A rendered key is read from its end.  The text of the request is the only end of it that is the
text of a JSON value and stands behind a number and a colon; the number is the page.  What is
left is the database and the collection with a colon between them, and this has one reading for
each colon in it.
-/

namespace DocumentBase

/-! ### Parts with a separator between them -/

section

variable {α : Type} {a : α} {x y z w : List α}

/-- The part in front of the first separator. -/
theorem append_cons_inj_of_not_mem_left (hx : a ∉ x) (hy : a ∉ y) :
    x ++ a :: z = y ++ a :: w ↔ x = y ∧ z = w := by
  constructor
  · intro h
    rcases List.append_eq_append_iff.mp h with ⟨more, hmore, htail⟩ | ⟨more, hmore, htail⟩
    all_goals
      cases more with
      | nil => simp_all
      | cons b more =>
          obtain ⟨rfl, -⟩ := List.cons.inj htail
          simp [hmore] at hx hy
  · rintro ⟨rfl, rfl⟩
    rfl

/-- The part behind the last separator. -/
theorem append_cons_inj_of_not_mem_right (hz : a ∉ z) (hw : a ∉ w) :
    x ++ a :: z = y ++ a :: w ↔ x = y ∧ z = w := by
  have hreverse := append_cons_inj_of_not_mem_left (z := x.reverse) (w := y.reverse)
    (List.mem_reverse.not.mpr hz) (List.mem_reverse.not.mpr hw)
  rw [← List.reverse_inj]
  simpa [and_comm] using hreverse

end

/-! ### The end of a key -/

namespace Json

open Place

variable {front back text : List Char}

/-- A digit does not begin or end a string. -/
theorem Place.step_of_isDigit {p q : Place} {c : Char} (hc : c.isDigit) (h : p.step c = some q) :
    q = outside ∨ q = inside := by
  have hplain : Plain [c] := plain_of_forall_isDigit (by simpa using hc)
  simp only [Plain, forall_eq, List.mem_cons, List.not_mem_nil, or_false,
    not_or] at hplain
  cases p <;> simp_all [step]

/-- The text of a value does not end in the text of another one behind a digit and a colon. -/
theorem Balanced.not_append_colon (hback : Balanced back)
    (hdigit : ∀ c ∈ front.getLast?, c.isDigit) :
    ¬ Balanced (front ++ ':' :: back) := by
  intro h
  obtain ⟨q, hq, hout⟩ := h outside isOutside_outside
  rw [walk_append, Option.bind_eq_some_iff] at hq
  obtain ⟨p, hp, hq⟩ := hq
  rw [walk_cons, Option.bind_eq_some_iff] at hq
  obtain ⟨r, hr, hq⟩ := hq
  have hplace : p = outside ∨ p = inside := by
    rcases List.eq_nil_or_concat front with rfl | ⟨init, c, rfl⟩
    · exact .inl (Option.some.inj hp).symm
    · rw [List.concat_eq_append, walk_append, Option.bind_eq_some_iff] at hp
      obtain ⟨s, -, hp⟩ := hp
      rw [walk_cons, Option.bind_eq_some_iff] at hp
      obtain ⟨t, ht, hp⟩ := hp
      cases hp
      exact step_of_isDigit (hdigit c (by simp)) ht
  rcases hplace with rfl | rfl
  · cases hr
  · -- the colon is part of a string, so `back` begins inside of it
    cases hr
    obtain ⟨s, hs, hend⟩ := hback outside isOutside_outside
    have hopposite : Opposite outside inside := .inl ⟨isOutside_outside, rfl⟩
    exact (hopposite.walk hs hq).not_both hend hout

end Json

namespace CacheKey

variable {k l : CacheKey}

/-- The database and the collection, as they stand in front of a key. -/
def location (k : CacheKey) : String :=
  k.database ++ ":" ++ k.collection

/-- A key without the text of the request. -/
def address (k : CacheKey) : List Char :=
  k.location.toList ++ ':' :: (toString k.page).toList

theorem toList_render (k : CacheKey) : k.render.toList = k.address ++ ':' :: k.query.toList := by
  simp [render, address, location]

/-- The page in front of the request ends with a digit. -/
theorem isDigit_of_mem_getLast? {more front : List Char} {c : Char}
    (h : k.address = more ++ ':' :: front) (hc : c ∈ front.getLast?) : c.isDigit := by
  obtain ⟨sign, digits, hpage, -, hne, hdigits⟩ := Json.exists_digits_integer k.page
  have hlast : k.address.getLast? = digits.getLast? := by
    rw [address, hpage, List.getLast?_append_of_ne_nil _ (List.cons_ne_nil _ _),
      ← List.cons_append, List.getLast?_append_of_ne_nil _ hne]
  have hmem : c ∈ k.address.getLast? := by
    rw [h]
    exact List.mem_getLast?_append_of_mem_getLast? (List.mem_getLast?_cons hc)
  rw [hlast] at hmem
  exact hdigits c (List.mem_of_getLast? hmem)

/-- If a key had two texts at its end, the longer one would end in the other behind a digit and
a colon. -/
theorem eq_of_address_append {text rest : List Char} (hrest : Json.Balanced rest)
    {more : List Char} (haddress : l.address = k.address ++ more)
    (htext : ':' :: text = more ++ ':' :: rest) (hbalanced : Json.Balanced text) :
    k.address = l.address ∧ text = rest := by
  cases more with
  | nil =>
      rw [List.append_nil] at haddress
      exact ⟨haddress.symm, (List.cons.inj htext).2⟩
  | cons c front =>
      obtain ⟨rfl, rfl⟩ := List.cons.inj htext
      exact absurd hbalanced
        (hrest.not_append_colon fun c hc => isDigit_of_mem_getLast? haddress hc)

/-- What stands in front of the request is seen from a rendered key, and so is the request. -/
theorem address_inj {text rest : List Char} (htext : Json.Balanced text)
    (hrest : Json.Balanced rest) (h : k.address ++ ':' :: text = l.address ++ ':' :: rest) :
    k.address = l.address ∧ text = rest := by
  rcases List.append_eq_append_iff.mp h with ⟨more, hmore, htail⟩ | ⟨more, hmore, htail⟩
  · exact eq_of_address_append hrest hmore htail htext
  · obtain ⟨haddress, heq⟩ := eq_of_address_append htext hmore htail hrest
    exact ⟨haddress.symm, heq.symm⟩

/-- The number of a page has no colon in its text. -/
theorem colon_not_mem_integer (n : Int) : ':' ∉ (toString n).toList :=
  fun h => Json.plain_integer n ':' h (by decide)

/-- The number behind the last colon of an address can be told from the names before it. -/
theorem address_eq_iff : k.address = l.address ↔ k.location = l.location ∧ k.page = l.page := by
  rw [address, address,
    append_cons_inj_of_not_mem_right (colon_not_mem_integer _) (colon_not_mem_integer _),
    String.toList_inj, String.toList_inj]
  exact and_congr_right fun _ => Int.repr_inj

/-- In one collection, a key that is rendered alike belongs to the same page and request. -/
theorem page_query_eq_of_render (hlocation : k.location = l.location) (h : k.render = l.render) :
    k.page = l.page ∧ k.query = l.query := by
  rw [← String.toList_inj, toList_render, toList_render, address, address, hlocation,
    List.append_assoc, List.append_assoc, List.append_cancel_left_eq, List.cons_append,
    List.cons_append, List.cons.injEq,
    append_cons_inj_of_not_mem_left (colon_not_mem_integer _) (colon_not_mem_integer _),
    String.toList_inj, String.toList_inj] at h
  exact ⟨Int.repr_inj.mp h.2.1, h.2.2⟩

/-- The location has one reading if a colon can only be the one between the two names. -/
theorem location_eq_iff
    (h : ':' ∉ k.database.toList ∧ ':' ∉ l.database.toList ∨
      ':' ∉ k.collection.toList ∧ ':' ∉ l.collection.toList) :
    k.location = l.location ↔ k.database = l.database ∧ k.collection = l.collection := by
  have hlist : ∀ key : CacheKey,
      key.location.toList = key.database.toList ++ ':' :: key.collection.toList := by
    simp [location]
  rw [← String.toList_inj, hlist, hlist, ← String.toList_inj, ← String.toList_inj]
  rcases h with ⟨hk, hl⟩ | ⟨hk, hl⟩
  · exact append_cons_inj_of_not_mem_left hk hl
  · exact append_cons_inj_of_not_mem_right hk hl

/-- Two keys that are rendered alike belong to the same page and the same request, and their
databases and collections are the same text when there is a colon between them.  They are the
same key if neither database has a colon in its name, or neither collection. -/
theorem render_eq_iff {request request' : Json} (hk : k.query = request.text)
    (hl : l.query = request'.text) :
    (k.render = l.render ↔
      k.database ++ ":" ++ k.collection = l.database ++ ":" ++ l.collection ∧
        k.page = l.page ∧ k.query = l.query) ∧
    (':' ∉ k.database.toList ∧ ':' ∉ l.database.toList ∨
        ':' ∉ k.collection.toList ∧ ':' ∉ l.collection.toList →
      (k.render = l.render ↔ k = l)) := by
  have hrender : k.render = l.render ↔
      k.location = l.location ∧ k.page = l.page ∧ k.query = l.query := by
    rw [← and_assoc, ← address_eq_iff, ← String.toList_inj, toList_render, toList_render,
      ← String.toList_inj]
    constructor
    · apply address_inj
      · rw [hk]
        exact Json.balanced_text request
      · rw [hl]
        exact Json.balanced_text request'
    · rintro ⟨haddress, hquery⟩
      rw [haddress, hquery]
  refine ⟨hrender, fun hcolon => ?_⟩
  rw [hrender, location_eq_iff hcolon, mk.injEq, and_assoc]

namespace KeyExample

/-- The text of a request that has a colon, a number and a quote inside of a name. -/
def request : Json :=
  .object [("a:1:\"", .integer 2), ("filter", .object [])]

def longer : CacheKey :=
  ⟨"sales", "orders:7", 1, request.text⟩

def shorter : CacheKey :=
  ⟨"sales", "orders", 7, (Json.object [("1:", request)]).text⟩

/-- A key with the colon between its two names in one of two places. -/
def split (database collection : String) : CacheKey :=
  ⟨database, collection, 1, request.text⟩

end KeyExample

open KeyExample in
theorem render_eq_iff_of_numbered_collection :
    (':' ∉ longer.database.toList ∧ ':' ∉ shorter.database.toList) ∧
    (longer.render = shorter.render ↔ longer = shorter) ∧
    (longer.render = shorter.render ↔
      longer.database ++ ":" ++ longer.collection =
          shorter.database ++ ":" ++ shorter.collection ∧
        longer.page = shorter.page ∧ longer.query = shorter.query) := by
  have hcolon : ':' ∉ longer.database.toList ∧ ':' ∉ shorter.database.toList := by decide
  have hlonger : longer.query = request.text := rfl
  have hiff := render_eq_iff (l := shorter) hlonger rfl
  exact ⟨hcolon, hiff.2 (.inl hcolon), hiff.1⟩

open KeyExample in
/-- Keys of different databases and of different collections that are rendered alike. -/
theorem render_eq_of_colon_in_names :
    (split "a" "b:c").render = (split "a:b" "c").render ∧
    (split "a" "b:c").database ≠ (split "a:b" "c").database ∧
    (split "a" "b:c").collection ≠ (split "a:b" "c").collection :=
  ⟨rfl, by decide, by decide⟩

end CacheKey

end DocumentBase
