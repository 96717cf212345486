import Docblock.Proofs.TypeExpr.Layered

/-!
# Spellings of nodes

The spelling of every kind of node, lists as the spellings of their items.
-/

set_option autoImplicit false

namespace Docblock.TypeExpr

def Field.render : Field → Text
  | .mk key none => keyText key
  | .mk key (some value) => keyText key ++ ':' :: ' ' :: value.render

namespace Node

theorem renderAll_eq_map (nodes : List Node) : renderAll nodes = nodes.map render := by
  induction nodes with
  | nil => rfl
  | cons node nodes induction => exact congrArg (render node :: ·) induction

theorem renderFields_eq_map (fields : List Field) : renderFields fields = fields.map Field.render := by
  induction fields with
  | nil => rfl
  | cons field fields induction =>
      obtain ⟨key, value⟩ := field
      cases value with
      | none => exact congrArg (keyText key :: ·) induction
      | some value => exact congrArg ((keyText key ++ ':' :: ' ' :: render value) :: ·) induction

/-- What stands behind the elements of a list: a list of one element ends in a comma. -/
def listEnd : List Node → Text
  | [element] => if element.isRest then [']'] else [',', ']']
  | _ => [']']

def resultText : Option Node → Text
  | none => []
  | some result => ':' :: ' ' :: result.render

theorem render_name (text : Text) : render (.name text) = nameText text := rfl

theorem render_word {node : Node} {text : Text} (word : node.word? = some text) :
    render node = text := by
  unfold word? at word
  split at word <;> cases word <;> rfl

theorem render_number (value : Binary64) : render (.number value) = Numeral.write value := rfl

theorem render_leadingNullable (node : Node) : render (.nullable node true) = '?' :: render node := rfl

theorem render_leadingNonNullable (node : Node) : render (.nonNullable node true) = '!' :: render node :=
  rfl

theorem render_nullable (node : Node) : render (.nullable node false) = render node ++ ['?'] := rfl

theorem render_nonNullable (node : Node) : render (.nonNullable node false) = render node ++ ['!'] := rfl

theorem render_rest (node : Node) : render (.rest node) = '.' :: '.' :: '.' :: render node := rfl

theorem render_optional (node : Node) : render (.optional node none) = render node ++ ['='] := by
  cases node <;> rfl

theorem render_defaulted (text default : Text) :
    render (.optional (.name text) (some default)) = '[' :: text ++ '=' :: default ++ [']'] := rfl

theorem render_parameter (text : Text) (node : Node) :
    render (.parameter text node) = text ++ ':' :: ' ' :: render node := rfl

theorem render_union (nodes : List Node) :
    render (.union nodes) = '(' :: (Text.join ['|'] (nodes.map render) ++ [')']) := by
  rw [← renderAll_eq_map]
  rfl

theorem render_array (nodes : List Node) :
    render (.array nodes) = '[' :: (Text.join commaBlank (nodes.map render) ++ listEnd nodes) := by
  rcases nodes with _ | ⟨first, _ | ⟨second, more⟩⟩
  · rfl
  · have itself : Text.join commaBlank ([first].map render) = render first := by simp [Text.join]
    rw [itself]
    cases rest : first.isRest with
    | true =>
        have alone : render (.array [first]) = '[' :: render first ++ [']'] := if_pos rest
        rw [alone, listEnd, if_pos rest]
        rfl
    | false =>
        have alone : render (.array [first]) = '[' :: render first ++ [',', ']'] :=
          if_neg (by simp [rest])
        rw [alone, listEnd, if_neg (by simp [rest])]
        rfl
  · rw [← renderAll_eq_map]
    rfl

theorem render_record (fields : List Field) :
    render (.record fields) = '{' :: (Text.join commaBlank (fields.map Field.render) ++ ['}']) := by
  rw [← renderFields_eq_map]
  rfl

theorem render_function (params : List Node) (result this new : Option Node) :
    render (.function params result this new) =
      "function".toList ++ '(' :: (Text.join commaBlank (renderBinding "this:".toList this ++
        renderBinding "new:".toList new ++ params.map render) ++ ')' :: resultText result) := by
  have opened : "function(".toList = "function".toList ++ ['('] := rfl
  have shape : render (.function params result this new) = "function(".toList ++
      Text.join commaBlank (renderBinding "this:".toList this ++ renderBinding "new:".toList new ++
        renderAll params) ++ [')'] ++ (renderBinding [':', ' '] result).flatten := rfl
  have ending : (renderBinding [':', ' '] result).flatten = resultText result := by
    cases result with
    | none => rfl
    | some node => exact List.append_nil _
  rw [shape, ending, renderAll_eq_map, opened]
  simp

theorem render_application (text : Text) (nodes : List Node) :
    render (.application (.name text) nodes) =
      nameText text ++ '<' :: (Text.join commaBlank (nodes.map render) ++ ['>']) := by
  have shape : render (.application (.name text) nodes) =
      nameText text ++ '<' :: Text.join commaBlank (renderAll nodes) ++ ['>'] := rfl
  rw [shape, renderAll_eq_map, List.append_assoc, List.cons_append]

end Node

end Docblock.TypeExpr
