import Transcendence.Base.JsNumbers

/-!
# Values that come from JSON

What `JSON.parse` gives, and the text that `String(value)` makes of it. An array is the texts of its
elements. An object has a text of its own only as long as it has no field named `toString`: a field
from JSON is never a function, so the conversion finds nothing to call and throws.
-/

open Binary64 JsString

inductive Json where
  | null
  | bool (b : Bool)
  | num (n : Number)
  | str (s : JsString)
  | arr (items : List Json)
  | obj (fields : List (JsString × Json))

namespace Json

mutual

/-- `String(value)`, where none means that it throws. -/
def toJsString : Json → Option JsString
  | .null => some (ofString "null")
  | .bool b => some (ofString (if b then "true" else "false"))
  | .num n => some (numberToString n)
  | .str s => some s
  | .arr items => joinItems items
  | .obj fields =>
      if ofString "toString" ∈ fields.map Prod.fst then none else some (ofString "[object Object]")

/-- `items.join(",")`, which leaves an empty place for each null. -/
def joinItems : List Json → Option JsString
  | [] => some []
  | .null :: rest => (joinItems rest).map (separate rest [])
  | item :: rest => (toJsString item).bind fun s => (joinItems rest).map (separate rest s)
where
  separate (rest : List Json) (first others : JsString) : JsString :=
    if rest.isEmpty then first else first ++ 0x2C :: others

end

/-- The values without a text: objects with a field named `toString`, and arrays that hold one. -/
inductive Unprintable : Json → Prop where
  | obj {fields : List (JsString × Json)} (hfield : ofString "toString" ∈ fields.map Prod.fst) : Unprintable (.obj fields)
  | arr {items : List Json} {item : Json} (hitem : item ∈ items) (h : Unprintable item) : Unprintable (.arr items)

theorem joinItems_cons_eq_none_iff {item : Json} {rest : List Json} :
    joinItems (item :: rest) = none ↔ toJsString item = none ∨ joinItems rest = none := by
  have hboth : ∀ o p : Option JsString,
      (o.bind fun s => p.map (joinItems.separate rest s)) = none ↔ o = none ∨ p = none := by
    intro o p
    cases o with
    | none => simp
    | some s => simp
  cases item with
  | null => simp [joinItems, toJsString]
  | _ =>
      rw [joinItems]
      · exact hboth _ _
      · nofun

mutual

theorem toJsString_eq_none_iff : ∀ value : Json, toJsString value = none ↔ Unprintable value
  | .null => iff_of_false nofun nofun
  | .bool _ => iff_of_false nofun nofun
  | .num _ => iff_of_false nofun nofun
  | .str _ => iff_of_false nofun nofun
  | .arr items => by
      rw [toJsString, joinItems_eq_none_iff items]
      constructor
      · intro ⟨item, hitem, h⟩
        exact .arr hitem h
      · intro h
        cases h with
        | arr hitem h => exact ⟨_, hitem, h⟩
  | .obj fields => by
      rw [toJsString]
      split_ifs with hfield
      · exact iff_of_true rfl (.obj hfield)
      · refine iff_of_false nofun fun h => ?_
        cases h with
        | obj h => exact hfield h

theorem joinItems_eq_none_iff : ∀ items : List Json, joinItems items = none ↔ ∃ item ∈ items, Unprintable item
  | [] => iff_of_false nofun nofun
  | item :: rest => by
      rw [joinItems_cons_eq_none_iff, toJsString_eq_none_iff item, joinItems_eq_none_iff rest, List.exists_mem_cons_iff]

end

end Json
