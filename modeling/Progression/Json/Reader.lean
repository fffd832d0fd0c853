import Progression.Json.Token

/-!
Reading JSON. A text is read word by word into an unfinished value, which knows the
containers that are still open and what may come next.
-/

namespace Progression.Json

/-- An open container that waits for a value. Items and members come newest first. -/
inductive Frame
  | array (items : List Json)
  | object (members : List (Option String × Json)) (key : Option String)
  deriving Repr

/-- A value in the making, named for what comes next. -/
inductive Draft
  | value (outer : List Frame)
  | firstItem (outer : List Frame)
  | afterItem (items : List Json) (outer : List Frame)
  | firstKey (outer : List Frame)
  | nextKey (members : List (Option String × Json)) (outer : List Frame)
  | colon (members : List (Option String × Json)) (key : Option String) (outer : List Frame)
  | afterMember (members : List (Option String × Json)) (outer : List Frame)
  | done (value : Json)
  deriving Repr

namespace Draft

/-- Hands a finished value to the container that waits for it. -/
def put (j : Json) : List Frame → Draft
  | [] => .done j
  | .array items :: outer => .afterItem (j :: items) outer
  | .object members key :: outer => .afterMember ((key, j) :: members) outer

/-- A container with `outer` around it, unless that makes it nested too deeply. -/
def close (container : Json) (outer : List Frame) : Draft :=
  put (if outer.length < maxDepth then container else .unreadable) outer

/-- An object, from its members with the newest first. -/
def objectOf (members : List (Option String × Json)) : Json :=
  match members.reverse.mapM fun (key, j) => key.map (·, j) with
  | some members => .object members
  | none => .unreadable

def begin (outer : List Frame) : Token → Option Draft
  | .scalar j => some (put j outer)
  | .text s => some (put ((s.map .string).getD .unreadable) outer)
  | .leftBracket => some (.firstItem outer)
  | .leftBrace => some (.firstKey outer)
  | _ => none

def step : Draft → Token → Option Draft
  | .value outer, t => begin outer t
  | .firstItem outer, .rightBracket => some (close (.array []) outer)
  | .firstItem outer, t => begin (.array [] :: outer) t
  | .afterItem items outer, .comma => some (.value (.array items :: outer))
  | .afterItem items outer, .rightBracket => some (close (.array items.reverse) outer)
  | .firstKey outer, .rightBrace => some (close (.object []) outer)
  | .firstKey outer, .text key => some (.colon [] key outer)
  | .nextKey members outer, .text key => some (.colon members key outer)
  | .colon members key outer, .colon => some (.value (.object members key :: outer))
  | .afterMember members outer, .comma => some (.nextKey members outer)
  | .afterMember members outer, .rightBrace => some (close (objectOf members) outer)
  | _, _ => none

/-- Reads to the end of the text. -/
def run (draft : Draft) : List Char → Option Draft
  | [] => some draft
  | c :: cs =>
    if Token.isBlank c then run draft cs
    else
      match _h : Token.first? c cs with
      | none => none
      | some (token, rest) =>
        match draft.step token with
        | none => none
        | some draft => run draft rest
termination_by cs => cs.length
decreasing_by
  · simp
  · have := Token.length_first? _h
    simp; omega

end Draft

/-- Reads one value that fills the whole text, blanks around it apart. -/
def parse? (text : String) : Option Json :=
  match Draft.run (.value []) text.toList with
  | some (.done value) => some value
  | _ => none

end Progression.Json
