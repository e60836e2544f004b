import MarkupTemplate.Node

/-!
# Escaping

Values are escaped for the place they are written to, so that they cannot leave it: entities in
text and attributes, no dashes in pairs inside comments, no terminator inside character data.

* `escapeText`, `escapeAttribute`: entities for the characters that markup gives a meaning.
* `escapeComment`: without any pair of dashes.
* `escapeCdata`: every terminator is cut in two by closing and opening a section.
* `escape?`: the escaping of a context.
-/

namespace MarkupTemplate

namespace Escape

/-- Writes `entity` for every occurrence of a character. -/
def replaceChar (c : Char) (entity : String) (text : List Char) : List Char :=
  text.flatMap fun d => if d = c then entity.toList else [d]

/-- Escapes a text between tags. -/
def escapeText (text : List Char) : List Char :=
  replaceChar '>' "&gt;" (replaceChar '<' "&lt;" (replaceChar '&' "&amp;" text))

/-- Escapes a text between the quotes of an attribute. -/
def escapeAttribute (text : List Char) : List Char :=
  replaceChar '"' "&quot;" (replaceChar '\x27' "&apos;" (escapeText text))

/-- Drops every pair of dashes, found from left to right. -/
def escapeComment : List Char → List Char
  | [] => []
  | '-' :: '-' :: rest => escapeComment rest
  | c :: rest => c :: escapeComment rest

/-- Cuts every terminator of character data in two. -/
def escapeCdata : List Char → List Char
  | [] => []
  | ']' :: ']' :: '>' :: rest => "]]]]><![CDATA[>".toList ++ escapeCdata rest
  | c :: rest => c :: escapeCdata rest

end Escape

/-- Escapes a text for a context; `none` for a context without escaping rules. -/
def escape? (context : EscapeContext) (text : String) : Option String :=
  match context with
  | .text => some (String.ofList (Escape.escapeText text.toList))
  | .attr => some (String.ofList (Escape.escapeAttribute text.toList))
  | .comment => some (String.ofList (Escape.escapeComment text.toList))
  | .cdata => some (String.ofList (Escape.escapeCdata text.toList))
  | .unknown _ => none

end MarkupTemplate
