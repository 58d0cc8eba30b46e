import SchemaWire.Schema.Layout

/-!
# The text of a place

A place is shown part by part from the root on: fields by their names, elements in brackets, with a
point before a name unless nothing is shown before it or it opens with a bracket itself. An error
carries the text of the place where it was found.
-/

set_option autoImplicit false

namespace SchemaWire.Schema

/-- The text of the parts of a place, where something is shown before them or not. -/
def partsText (started : Bool) : Place → String
  | [] => ""
  | .field name :: rest =>
    (if started = true ∧ name.toList.head? ≠ some '[' then "." ++ name else name) ++
      partsText (started || name != "") rest
  | .head index :: rest => "[" ++ toString index ++ "]" ++ partsText true rest
  | .tail heads :: rest => "[" ++ toString heads ++ "..]" ++ partsText true rest

/-- Fields are joined by points, head elements are shown as `[i]` and a tail as `[n..]`, and the root
has a name of its own. -/
def nodeText : Place → String
  | [] => "<root>"
  | place => partsText false place

theorem appendDescent_field (text name : String) :
    appendDescent text (Descent.field name).text =
      text ++ if (text != "") = true ∧ name.toList.head? ≠ some '[' then "." ++ name else name := by
  rw [Descent.text, appendDescent]
  by_cases bracket : name.toList.head? = some '['
  · simp [bracket]
  · by_cases empty : text = "" <;> simp [bracket, empty, String.append_assoc]

theorem appendDescent_bracket (text inner : String) :
    appendDescent text ("[" ++ inner) = text ++ ("[" ++ inner) := by
  rw [appendDescent, if_pos (.inl (by simp))]

/-- Every part goes on from what is shown before it, of which it only matters whether it is empty. -/
theorem foldl_appendDescent (place : Place) (text : String) :
    (place.map Descent.text).foldl appendDescent text = text ++ partsText (text != "") place := by
  induction place generalizing text with
  | nil => simp [partsText]
  | cons descent rest ih =>
      rw [List.map_cons, List.foldl_cons, ih]
      cases descent with
      | field name =>
          have shown : (text ++ (if (text != "") = true ∧ name.toList.head? ≠ some '[' then
              "." ++ name else name) != "") = (text != "" || name != "") := by
            by_cases empty : text = ""
            · simp [empty]
            · have longer : text ++ (if (text != "") = true ∧ name.toList.head? ≠ some '[' then
                  "." ++ name else name) ≠ "" :=
                fun blank => empty (String.append_eq_empty_iff.mp blank).1
              rw [bne_iff_ne.mpr longer, bne_iff_ne.mpr empty, Bool.true_or]
          rw [appendDescent_field, shown, partsText, String.append_assoc]
      | head index =>
          have shown : (text ++ ("[" ++ (toString index ++ "]")) != "") = true := by simp
          rw [Descent.text, String.append_assoc, appendDescent_bracket, shown, partsText]
          simp only [String.append_assoc]
      | tail heads =>
          have shown : (text ++ ("[" ++ (toString heads ++ "..]")) != "") = true := by simp
          rw [Descent.text, String.append_assoc, appendDescent_bracket, shown, partsText]
          simp only [String.append_assoc]

theorem Place.text_eq (place : Place) : place.text = nodeText place := by
  cases place with
  | nil => rfl
  | cons descent rest =>
      have joined := foldl_appendDescent (descent :: rest) ""
      rw [String.empty_append] at joined
      exact joined

-- A field name that opens with a bracket is joined like an element, and one without text is not
-- seen at the front.
example : Place.text [.field "", .field "a", .field "[b", .tail 2, .field "c"] = "a[b[2..].c" :=
  rfl

end SchemaWire.Schema
