import StableOrdinals.Text

/-!
# Terminal style

Coloured text and the kinds of line that commands print.
-/

namespace StableOrdinals.CommandLine.Style

def blue : Text := "\x1b[38;2;62;120;178m"

def brown : Text := "\x1b[38;2;128;99;58m"

def red : Text := "\x1b[91m"

def green : Text := "\x1b[92m"

def yellow : Text := "\x1b[93m"

def bold : Text := "\x1b[1m"

def dim : Text := "\x1b[2m"

def reset : Text := "\x1b[0m"

def colored (color s : Text) : Text := color ++ s ++ reset

def marked (color mark message : Text) : Text :=
  colored color ("    " ++ mark ++ " ") ++ message ++ "\n"

def done (message : Text) : Text := marked green "+" message

def failure (message : Text) : Text := marked red "x" message

def remark (message : Text) : Text := marked blue "~" message

def hint (message : Text) : Text := marked brown ">" message

/-- A title with a blank line above and below. -/
def title (s : Text) : Text := "\n" ++ colored (brown ++ bold) ("  " ++ s) ++ "\n\n"

def row (key value : Text) : Text :=
  colored dim ("    " ++ Text.padRight 12 key) ++ value ++ "\n"

end StableOrdinals.CommandLine.Style
