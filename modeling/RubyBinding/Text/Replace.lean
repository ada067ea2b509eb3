import RubyBinding.Text.Blank

/-! # Replacing parts of a text -/

namespace RubyBinding.Text

/-- The text with every occurrence of `part` replaced, from left to right. What was put in is not
searched again. -/
def replaceAll (part replacement : List Char) : List Char → List Char
  | [] => []
  | c :: cs =>
    match after? part (c :: cs) with
    | some _ => replacement ++ replaceAll part replacement (cs.drop (part.length - 1))
    | none => c :: replaceAll part replacement cs
termination_by cs => cs.length
decreasing_by
  all_goals simp only [List.length_drop, List.length_cons]; omega

/-- `String` form of `replaceAll`. -/
def replaced (part replacement text : String) : String :=
  String.ofList (replaceAll part.toList replacement.toList text.toList)

end RubyBinding.Text
