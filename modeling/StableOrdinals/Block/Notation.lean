import StableOrdinals.Block
import StableOrdinals.Block.Quoted

/-!
# Written lines

`render` writes a document one line to a line, with keys and scalars in double quotes. `read?` reads
a document, passing over blank lines and comments. Keys and scalars may also stand in single quotes
or plain; a plain key ends at the first colon with a blank behind it, a plain scalar at a comment or
at the end of the line. A bracket or a brace in front opens a sequence or a mapping, which is no
key. A line that cannot be read makes the document unreadable, and so does a text that is no
mapping, such as a single word. `read?_render` says that a written document is read back.

`format` is the document format that comes of this.
-/

namespace StableOrdinals.Block

open Text

def Value.render : Value → Text
  | .null => []
  | .scalar text => " " ++ quote text
  | .sequence => " []"
  | .emptyMapping => " \x7b\x7d"

def Line.render (line : Line) : Text :=
  List.replicate line.indent (' ' : Byte) ++ quote line.key ++ ":" ++ line.value.render

def render (lines : List Line) : Text := lines.flatMap fun line => line.render ++ "\n"

/-- Splits at the first colon that stands before a blank or at the end. -/
def plainKey? : Text → Option (Text × Text)
  | [] => none
  | c :: s =>
    if c = ':' ∧ (s.take 1).all isBlank then some ([], s) else (plainKey? s).map (prepend [c])

/-- Blanks and a comment, which starts behind a blank. -/
def isPassedOver : Text → Bool
  | [] => true
  | c :: s => isBlank c && (s.dropWhile isBlank).head?.all (· = ('#' : Byte))

/-- A value in quotes has at most a comment behind the closing quote. -/
def closed? : Option (Text × Text) → Option Value
  | some (text, rest) => if isPassedOver rest then some (.scalar text) else none
  | none => none

def beforeComment : Text → Text
  | [] => []
  | c :: s => if isBlank c ∧ s.head? = some ('#' : Byte) then [] else c :: beforeComment s

def nulls : List Text := ["~", "null", "Null", "NULL"]

/-- A plain scalar holds no colon that would end a key. -/
def plain? (s : Text) : Option Value :=
  if s ∈ nulls then some .null
  else if (plainKey? s).isSome then none
  else some (.scalar s)

/-- Reads what follows the colon, without the blanks around it. -/
def Value.read? : Text → Option Value
  | [] => some .null
  | c :: s =>
    if c = '"' then closed? (unquote? s)
    else if c = '\'' then closed? (unquoteSingle? s)
    else if c = '#' then some .null
    else
      let shown := dropBlanksRight (beforeComment (c :: s))
      if c = '[' then if shown.getLast? = some (']' : Byte) then some .sequence else none
      else if c = '\x7b' then if shown = "\x7b\x7d" then some .emptyMapping else none
      else plain? shown

def behindColon? : Option (Text × Text) → Option (Text × Text)
  | some (key, rest) =>
    match rest.dropWhile isBlank with
    | [] => none
    | c :: rest => if c = ':' then some (key, rest) else none
  | none => none

/-- Reads a key and returns it with what follows its colon. -/
def key? : Text → Option (Text × Text)
  | [] => none
  | c :: s =>
    if c = '"' then behindColon? (unquote? s)
    else if c = '\'' then behindColon? (unquoteSingle? s)
    else if c = '[' ∨ c = '\x7b' then none
    else (plainKey? (c :: s)).map fun (key, rest) => (dropBlanksRight key, rest)

def isIndent (c : Byte) : Bool := c = ' '

def Line.read? (s : Text) : Option Line := do
  let (key, rest) ← key? (s.dropWhile isIndent)
  let value ← Value.read? (trim rest)
  some ⟨(s.takeWhile isIndent).length, key, value⟩

def hasContent (line : Text) : Bool :=
  match line.dropWhile isBlank with
  | [] => false
  | c :: _ => c ≠ '#'

/-- Three dashes in front of everything else start the document. -/
def withoutStart : List Text → List Text
  | [] => []
  | line :: lines =>
    if line.take 3 = "---" ∧ (line.drop 3).all isBlank then lines else line :: lines

def read? (s : Text) : Option (List Line) :=
  (withoutStart ((split (· = '\n') s).filter hasContent)).mapM Line.read?

def itemLines (key : Text) : Document.Item → List Line
  | .text s => [⟨0, key, .scalar s⟩]
  | .number i => [⟨0, key, .scalar (ofInt i)⟩]
  | .texts entries =>
    if entries = [] then [⟨0, key, .emptyMapping⟩]
    else ⟨0, key, .null⟩ :: entries.map fun (key, value) => ⟨2, key, .scalar value⟩

/-- Nothing is said of a text that cannot be read but the complaint. -/
def format (complaint : Text) : Document.Format where
  read s :=
    match read? s with
    | some lines => .ok (view lines)
    | none => .error complaint
  write fields := .ok (render (fields.flatMap fun (key, item) => itemLines key item))
  unopened path := "bad file: " ++ path

theorem read_of_read? (complaint : Text) {s : Text} {lines : List Line} (h : read? s = some lines) :
    (format complaint).read s = .ok (view lines) := by
  have hread : (format complaint).read s =
      match read? s with
      | some lines => .ok (view lines)
      | none => .error complaint := rfl
  rw [hread, h]

theorem trim_quote (s : Text) : trim (" " ++ quote s) = quote s := by
  have : trim (" " ++ quote s) = trim (quote s) := rfl
  rw [this]
  apply trim_of_ends
  · intro c hc
    rw [quote_eq] at hc
    simp only [List.head?_cons, Option.mem_def, Option.some.injEq] at hc
    subst hc
    decide
  · intro c hc
    rw [quote_eq, ← List.cons_append, List.getLast?_concat, Option.mem_def, Option.some.injEq] at hc
    subst hc
    decide

theorem Value.read?_trim_render (v : Value) : Value.read? (trim v.render) = some v := by
  cases v with
  | null => rfl
  | sequence => rfl
  | emptyMapping => rfl
  | scalar text =>
    rw [Value.render, trim_quote, quote_eq]
    have h := unquote?_escaped text []
    rw [List.append_nil] at h
    change unquote? (text.flatMap escape ++ [('"' : Byte)]) = _ at h
    simp [Value.read?, h, closed?, isPassedOver]

theorem key?_quote (key rest : Text) : key? (quote key ++ ":" ++ rest) = some (key, rest) := by
  have h := unquote?_escaped key (":" ++ rest)
  rw [quote_eq, List.append_assoc, List.cons_append]
  change unquote? (key.flatMap escape ++ [('"' : Byte)] ++ (":" ++ rest)) = _ at h
  simp only [key?, if_true, h]
  rfl

theorem Line.read?_render (line : Line) : Line.read? line.render = some line := by
  let spaces : Text := List.replicate line.indent (' ' : Byte)
  let written : Text := quote line.key ++ ":" ++ line.value.render
  have hr : line.render = spaces ++ written := by simp [Line.render, spaces, written]
  have hd : (spaces ++ written).dropWhile isIndent = written := by
    rw [List.dropWhile_append_of_pos (by simp [spaces, isIndent])]
    rfl
  have ht : (spaces ++ written).takeWhile isIndent = spaces := by
    rw [List.takeWhile_append_of_pos (by simp [spaces, isIndent])]
    have : ¬isIndent '"' := by decide
    simp [written, quote_eq, this]
  rw [hr, Line.read?, hd, ht, key?_quote]
  simp [spaces, Value.read?_trim_render]

theorem Value.le_of_mem_render {v : Value} {d : Byte} (h : d ∈ v.render) : 32 ≤ d := by
  have hplain (s : Text) (hs : s.all (32 ≤ ·) = true) (hd : d ∈ s) : 32 ≤ d :=
    of_decide_eq_true (List.all_eq_true.1 hs d hd)
  cases v with
  | null => cases h
  | sequence => exact hplain _ (by decide) h
  | emptyMapping => exact hplain _ (by decide) h
  | scalar text =>
    rcases List.mem_append.1 h with h | h
    · exact hplain " " (by decide) h
    · exact le_of_mem_quote h

theorem Line.le_of_mem_render {line : Line} {d : Byte} (h : d ∈ line.render) : 32 ≤ d := by
  simp only [Line.render, List.mem_append, List.mem_replicate] at h
  rcases h with ((⟨_, rfl⟩ | h) | h) | h
  · decide
  · exact le_of_mem_quote h
  · rw [List.mem_singleton.1 h]
    decide
  · exact Value.le_of_mem_render h

theorem Line.newline_not_mem_render (line : Line) : ('\n' : Byte) ∉ line.render :=
  fun h => absurd (Line.le_of_mem_render h) (by decide)

theorem Line.hasContent_render (line : Line) : hasContent line.render = true := by
  have h : line.render.dropWhile isBlank = quote line.key ++ ":" ++ line.value.render := by
    rw [Line.render, List.append_assoc, List.append_assoc,
      List.dropWhile_append_of_pos (by simp [isBlank]), ← List.append_assoc]
    rfl
  have hq : ('"' : Byte) ≠ '#' := by decide
  simp [hasContent, h, quote_eq, hq]

theorem split_line {line : Text} (h : ('\n' : Byte) ∉ line) (s : Text) :
    split (· = '\n') (line ++ "\n" ++ s) = line :: split (· = '\n') s := by
  induction line with
  | nil => rfl
  | cons c line ih =>
    have hc : c ≠ '\n' := fun e => h (by simp [e])
    rw [List.cons_append, List.cons_append, split_cons_of_not_sep (by simp [hc]),
      ih fun hm => h (by simp [hm])]
    rfl

theorem mapM_read?_render (lines : List Line) :
    (lines.map Line.render).mapM Line.read? = some lines := by
  induction lines with
  | nil => rfl
  | cons line lines ih => simp [List.mapM_cons, Line.read?_render, ih]

theorem filter_split_render (lines : List Line) (s : Text) :
    (split (· = '\n') (render lines ++ s)).filter hasContent =
      lines.map Line.render ++ (split (· = '\n') s).filter hasContent := by
  induction lines with
  | nil => rfl
  | cons line lines ih =>
    rw [render, List.flatMap_cons, List.append_assoc, split_line line.newline_not_mem_render,
      List.filter_cons, if_pos line.hasContent_render, List.map_cons, List.cons_append]
    exact congrArg _ ih

/-- A written line starts with a blank or a quote. -/
theorem withoutStart_render (lines : List Line) :
    withoutStart (lines.map Line.render) = lines.map Line.render := by
  cases lines with
  | nil => rfl
  | cons line lines =>
    have hne : line.render.take 3 ≠ "---" := by
      obtain ⟨indent, key, value⟩ := line
      intro h
      have hhead : (Line.render ⟨indent, key, value⟩).head? = some ('-' : Byte) := by
        have := congrArg List.head? h
        rwa [List.head?_take, if_neg (by decide)] at this
      cases indent with
      | zero => revert hhead; simp [Line.render, quote_eq]; decide
      | succ indent => revert hhead; simp [Line.render, List.replicate_succ]; decide
    exact if_neg fun h => hne h.1

theorem read?_render (lines : List Line) : read? (render lines ++ "\n") = some lines := by
  have h : (split (· = '\n') (render lines ++ "\n")).filter hasContent = lines.map Line.render := by
    rw [filter_split_render]
    exact List.append_nil _
  rw [read?, h, withoutStart_render, mapM_read?_render]

theorem beforeNul_render (lines : List Line) : beforeNul (render lines) = render lines := by
  apply beforeNul_of_forall
  rintro d hd rfl
  obtain ⟨line, _, hd⟩ := List.mem_flatMap.1 hd
  rcases List.mem_append.1 hd with hd | hd
  · exact absurd (Line.le_of_mem_render hd) (by decide)
  · exact absurd (List.mem_singleton.1 hd) (by decide)

end StableOrdinals.Block
