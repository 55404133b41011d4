/-!
Message templates. A placeholder is a name between braces; the text put in its place is never
scanned again. A template with a brace that is not closed is left as it is.
-/

namespace LuaHost.Template

/-- A piece of a template. -/
inductive Piece where
  | literal (text : List Char)
  | placeholder (name : List Char)
  deriving Repr, DecidableEq

/-- Splits a template into its pieces; `none` if an opening brace has no closing brace after it. -/
def pieces? (template : List Char) : Option (List Piece) :=
  let literal := template.takeWhile (· ≠ '{')
  match _opened : template.dropWhile (· ≠ '{') with
  | [] => some [.literal literal]
  | _ :: inside =>
    match _closed : inside.dropWhile (· ≠ '}') with
    | [] => none
    | _ :: rest =>
      (pieces? rest).map fun ps => .literal literal :: .placeholder (inside.takeWhile (· ≠ '}')) :: ps
termination_by template.length
decreasing_by
  have first := congrArg List.length _opened
  have second := congrArg List.length _closed
  have a := (List.dropWhile_sublist (fun c => decide (c ≠ '{')) (l := template)).length_le
  have b := (List.dropWhile_sublist (fun c => decide (c ≠ '}')) (l := inside)).length_le
  simp only [List.length_cons] at first second
  omega

/-- The text of a template when `value` gives the text for each name. -/
def render (template : String) (value : String → String) : String :=
  match pieces? template.toList with
  | none => template
  | some ps => String.join (ps.map fun
      | .literal text => String.ofList text
      | .placeholder name => value (String.ofList name))

end LuaHost.Template
