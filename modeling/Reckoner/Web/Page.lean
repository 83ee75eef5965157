import Reckoner.Report

/-! # The page

One page shows a form with the source that was sent and, below it, the lines of
its report.  Whatever is not fixed text is escaped, so that it can neither
close an attribute nor open a tag. -/
set_option autoImplicit false
namespace Reckoner.Web

/-- The character references that stand for bytes with a meaning in the page,
and U+FFFD for the one byte that a page cannot hold. -/
def reference? (b : UInt8) : Option Text :=
  if b = 34 then some (utf8 "&#34;")
  else if b = 39 then some (utf8 "&#39;")
  else if b = 38 then some (utf8 "&amp;")
  else if b = 60 then some (utf8 "&lt;")
  else if b = 62 then some (utf8 "&gt;")
  else if b = 43 then some (utf8 "&#43;")
  else if b = 0 then some (utf8 "\uFFFD")
  else none

def escapedByte (b : UInt8) : Text := (reference? b).getD [b]

def escapedText (t : Text) : Text := t.flatMap escapedByte

namespace Page

def head : Text :=
  utf8 ("<!DOCTYPE html>\n<html>\n<head><title>arith</title></head>\n<body>\n" ++
    "<form method=\"post\" action=\"/\">\n  <input type=\"text\" name=\"source\" value=\"")

def middle : Text :=
  utf8 "\" size=\"60\" autofocus>\n  <button type=\"submit\">Evaluate</button>\n</form>\n"

def foot : Text := utf8 "\n</body>\n</html>\n"

def listing (lines : List Text) : List Text :=
  if lines.isEmpty then []
  else utf8 "<pre>" :: lines.flatMap (fun l => [escapedText l, [10]]) ++ [utf8 "</pre>"]

/-- The page in the pieces that it is written in. -/
def chunks (source : Text) (lines : List Text) : List Text :=
  [head, escapedText source, middle] ++ listing lines ++ [foot]

end Page
end Reckoner.Web
