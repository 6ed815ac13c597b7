import Deadwood.Text.Piece

/-!
# Styled text

Text for a terminal is made of spans, each in a style. Plainly it is the text of the spans; in
color a styled span stands between the escape sequence of its style and the one that resets it.
-/

namespace Deadwood

/-- How a span looks. -/
inductive Style where
  | plain
  | dimmed
  | red
  | green
  | yellow
  | blue
  | boldRed
  | boldGreen
  | boldYellow
  | boldBlue
  | boldCyan
  deriving Repr, DecidableEq, Inhabited

namespace Style

/-- The parameters that select a style; the plain one needs none. -/
def parameters : Style → List Char
  | plain => []
  | dimmed => ['2']
  | red => ['3', '1']
  | green => ['3', '2']
  | yellow => ['3', '3']
  | blue => ['3', '4']
  | boldRed => ['1', ';', '3', '1']
  | boldGreen => ['1', ';', '3', '2']
  | boldYellow => ['1', ';', '3', '3']
  | boldBlue => ['1', ';', '3', '4']
  | boldCyan => ['1', ';', '3', '6']

/-- The sequence that selects what the parameters say. -/
def escape (parameters : List Char) : List Char := '\x1b' :: '[' :: parameters ++ ['m']

/-- The sequence that goes back to the plain style. -/
def reset : List Char := escape ['0']

/-- The text in which the style is selected again behind each reset. -/
def reselect (start : List Char) : Nat → List Char → List Char
  | _, [] => []
  | skip + 1, c :: cs =>
    if skip = 0 then c :: start ++ reselect start 0 cs else c :: reselect start skip cs
  | 0, c :: cs =>
    if reset.isPrefixOf (c :: cs) then c :: reselect start (reset.length - 1) cs
    else c :: reselect start 0 cs

end Style

/-- A stretch of text in one style. -/
structure Span where
  style : Style
  text : String
  deriving Repr, DecidableEq, Inhabited

namespace Span

/-- The text as it shows in color. -/
def colored (s : Span) : String :=
  match s.style with
  | .plain => s.text
  | style =>
    let start := Style.escape style.parameters
    String.ofList (start ++ Style.reselect start 0 s.text.toList ++ Style.reset)

/-- The text of a span, in color or not. -/
def render (color : Bool) (s : Span) : String := if color then s.colored else s.text

end Span

/-- A line of spans. -/
abbrev StyledLine := List Span

/-- The text of a line, with its end. -/
def StyledLine.render (color : Bool) (line : StyledLine) : String :=
  String.join (line.map (Span.render color)) ++ "\n"

end Deadwood
