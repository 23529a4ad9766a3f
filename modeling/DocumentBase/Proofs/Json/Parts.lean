import DocumentBase.Proofs.Json.Text

/-!
# Parts of texts

The text of an array or an object begins with the text of its first item or member, and goes on
with the text of the others.  So arrays and objects that have everything else in common have the
same text only if their first items or members have the same text.
-/

namespace DocumentBase.Json

/-- What follows the first member of an object. -/
def afterMember : List (String × Json) → List Char
  | [] => ['\x7d']
  | member :: rest => ',' :: (object (member :: rest)).text.toList.tail

/-- What follows the first item of an array. -/
def afterItem : List Json → List Char
  | [] => [']']
  | v :: rest => ',' :: (array (v :: rest)).text.toList.tail

theorem toList_text_object (name : String) (v : Json) (rest : List (String × Json)) :
    (object ((name, v) :: rest)).text.toList =
      '\x7b' :: ((quoted name).toList ++ ':' :: (v.text.toList ++ afterMember rest)) := by
  cases rest with
  | nil => simp [text, memberTexts, afterMember]
  | cons member rest => simp [text, memberTexts, afterMember]

theorem toList_text_array (v : Json) (rest : List Json) :
    (array (v :: rest)).text.toList = '[' :: (v.text.toList ++ afterItem rest) := by
  cases rest with
  | nil => simp [text, itemTexts, afterItem]
  | cons w rest => simp [text, itemTexts, afterItem]

theorem toList_text_string (s : String) : (string s).text.toList = (quoted s).toList := rfl

variable {name name' s s' : String} {v v' : Json} {members members' : List (String × Json)}
  {items : List Json}

/-- Strings with the same text are the same. -/
theorem string_text_inj (h : (string s).text = (string s').text) : s = s' := by
  have hquoted : (quoted s).toList ++ [] = (quoted s').toList ++ [] := by
    rw [← toList_text_string, h]
    rfl
  exact (quoted_append_inj hquoted).1

/-- The name of the first member can be read from the text of an object. -/
theorem name_eq_of_text
    (h : (object ((name, v) :: members)).text = (object ((name', v') :: members')).text) :
    name = name' ∧
      v.text.toList ++ afterMember members = v'.text.toList ++ afterMember members' := by
  rw [← String.toList_inj, toList_text_object, toList_text_object] at h
  obtain ⟨hname, hrest⟩ := quoted_append_inj (List.cons.inj h).2
  exact ⟨hname, (List.cons.inj hrest).2⟩

/-- Objects that differ in their first value at most have the same text only if the values have. -/
theorem text_eq_of_text_object
    (h : (object ((name, v) :: members)).text = (object ((name', v') :: members)).text) :
    v.text = v'.text :=
  String.toList_inj.mp (List.append_cancel_right (name_eq_of_text h).2)

/-- Arrays with the same text have first items with the same text. -/
theorem text_eq_of_text_array (h : (array (v :: items)).text = (array (v' :: items)).text) :
    v.text = v'.text := by
  rw [← String.toList_inj, toList_text_array, toList_text_array] at h
  exact String.toList_inj.mp (List.append_cancel_right (List.cons.inj h).2)

/-- Behind a string that is the first value, the rest of an object can be read from its text. -/
theorem text_eq_of_text_object_string {first first' : String × Json}
    (h : (object ((name, string s) :: first :: members)).text =
      (object ((name', string s') :: first' :: members')).text) :
    s = s' ∧ (object (first :: members)).text = (object (first' :: members')).text := by
  obtain ⟨hs, hafter⟩ := quoted_append_inj (name_eq_of_text h).2
  refine ⟨hs, String.toList_inj.mp ?_⟩
  have htail := (List.cons.inj hafter).2
  rw [toList_text_object first.1 first.2, toList_text_object first'.1 first'.2] at htail ⊢
  rw [List.tail_cons, List.tail_cons] at htail
  rw [htail]

/-- The text of a member is shorter than that of the object. -/
theorem length_text_lt_object :
    v.text.length < (object ((name, v) :: members)).text.length := by
  rw [← String.length_toList, ← String.length_toList, toList_text_object]
  simp only [List.length_cons, List.length_append]
  omega

theorem length_text_lt_array : v.text.length < (array (v :: items)).text.length := by
  rw [← String.length_toList, ← String.length_toList, toList_text_array]
  simp only [List.length_cons, List.length_append]
  omega

/-- An array with one more object has a longer text. -/
theorem length_text_lt_array_cons :
    (array items).text.length < (array (object members :: items)).text.length := by
  have hobject : 0 < (object members).text.toList.length := by
    simp [text]
  rw [← String.length_toList, ← String.length_toList, toList_text_array]
  cases items with
  | nil =>
      have hempty : (array []).text.toList.length = 2 := rfl
      simp only [afterItem, List.length_cons, List.length_append, List.length_nil]
      omega
  | cons w items =>
      simp only [afterItem, List.length_cons, List.length_append, List.length_tail]
      omega

/-- An object with one more member has a longer text. -/
theorem length_text_lt_object_cons :
    (object members).text.length < (object ((name, v) :: members)).text.length := by
  rw [← String.length_toList, ← String.length_toList, toList_text_object]
  cases members with
  | nil =>
      have hempty : (object []).text.toList.length = 2 := rfl
      simp only [afterMember, List.length_cons, List.length_append, List.length_nil]
      omega
  | cons member members =>
      simp only [afterMember, List.length_cons, List.length_append, List.length_tail]
      omega

end DocumentBase.Json
