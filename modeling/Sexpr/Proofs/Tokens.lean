import Sexpr.Proofs.NormalForm
import Sexpr.Proofs.Lookahead

/-!
# Reading token by token

`rawTokens` cuts a source text into its tokens as they are written: blanks are gone and atoms are
in upper case, but a literal keeps every character between its quotes, and a literal that is not
closed keeps what ended it. Nothing else of a text matters to the reader. What comes next at a
cursor is what the first token means (`begins_next`), so that a scan is that of the tokens, up to
places (`scan_unplaced`). Lexemes are assembled in the same way without their places
(`assemble_unplaced`), so reading depends on the tokens alone, up to places (`resume_unplaced`).
`reading_depends_on_tokens` compares two texts with the same tokens.
-/

namespace Sexpr

/-! ## Tokens as they are written -/

/-- What ended a string literal. -/
inductive LiteralEnd where
  | quote
  | lineFeed
  | endOfText
deriving DecidableEq, Repr

/-- A token as it is written. -/
inductive RawToken where
  | opening
  | closing
  /-- An atom, in upper case. -/
  | atom (text : List Char)
  /-- What stands after an opening quote up to what ended the literal. -/
  | literal (raw : List Char) (ended : LiteralEnd)
deriving DecidableEq, Repr

/-- What stands after an opening quote: the characters up to the end of the literal, what ended it,
and the text after that. A backslash takes the next character with it, unless the line ends. -/
def splitLiteral : List Char → List Char × LiteralEnd × List Char
  | [] => ([], .endOfText, [])
  | c :: rest =>
      if c = '"' then ([], .quote, rest)
      else if c = '\n' then ([], .lineFeed, rest)
      else if c = '\\' then
        match rest with
        | [] => ([c], .endOfText, [])
        | d :: rest =>
            if d = '\n' then ([c], .lineFeed, rest)
            else
              let later := splitLiteral rest
              (c :: d :: later.1, later.2)
      else
        let later := splitLiteral rest
        (c :: later.1, later.2)

/-- A literal leaves no more of the text than there was. -/
theorem length_splitLiteral (text : List Char) :
    (splitLiteral text).2.2.length ≤ text.length := by
  fun_induction splitLiteral text <;> simp_all +zetaDelta <;> omega

/-- The tokens of a text as they are written, from left to right. A literal that is not closed is
the last one. -/
def rawTokens : List Char → List RawToken
  | [] => []
  | c :: rest =>
      if isBlank c then rawTokens rest
      else if c = '(' then .opening :: rawTokens rest
      else if c = ')' then .closing :: rawTokens rest
      else if c = '"' then
        .literal (splitLiteral rest).1 (splitLiteral rest).2.1 ::
          if (splitLiteral rest).2.1 = .quote then rawTokens (splitLiteral rest).2.2 else []
      else
        .atom ((c :: rest.takeWhile (!isDelimiter ·)).map Char.toUpper) ::
          rawTokens (rest.dropWhile (!isDelimiter ·))
termination_by text => text.length
decreasing_by
  · simp
  · simp
  · simp
  · exact Nat.lt_succ_of_le (length_splitLiteral rest)
  · exact Nat.lt_succ_of_le (List.dropWhile_sublist _).length_le

/-! ## What tokens mean -/

/-- The token with an atom in upper case. -/
def Token.upcase : Token → Token
  | atom text => atom (text.map Char.toUpper)
  | token => token

/-- What a literal stands for, or why it is at fault, wherever it is. -/
def Literal.meaning : Literal → Except ReadFault Token
  | closed text => .ok (.literal text)
  | badEscape c _ => .error (.badEscape c)
  | newline _ => .error .newline
  | unterminated => .error .unterminated

/-- The character that ended a literal. -/
def LiteralEnd.text : LiteralEnd → List Char
  | quote => ['"']
  | lineFeed => ['\n']
  | endOfText => []

/-- The token that is meant, or the fault that is in it. -/
def RawToken.meaning : RawToken → Except ReadFault Token
  | opening => .ok .opening
  | closing => .ok .closing
  | atom text => .ok (.atom text)
  | literal raw ended => (Literal.read .start (raw ++ ended.text)).1.meaning

namespace Literal

/-- What a literal means with a character in front depends on what it means. -/
theorem meaning_push {c : Char} {literal other : Literal} (h : literal.meaning = other.meaning) :
    (literal.push c).meaning = (other.push c).meaning := by
  cases literal <;> cases other <;> simp_all [push, meaning]

/-- What a literal means with an escape in front depends on what it means. -/
theorem meaning_pushEscape {c : Char} {p q : Position} {literal other : Literal}
    (h : literal.meaning = other.meaning) :
    (literal.pushEscape c p).meaning = (other.pushEscape c q).meaning := by
  unfold pushEscape
  cases unescape? c with
  | some unescaped => exact meaning_push h
  | none => cases literal <;> cases other <;> simp_all [refuse, meaning]

/-- A literal is read from the characters up to its end, wherever they stand. -/
theorem meaning_read (text : List Char) (p q : Position) :
    (read p text).1.meaning =
      (read q ((splitLiteral text).1 ++ (splitLiteral text).2.1.text)).1.meaning := by
  fun_induction splitLiteral text generalizing p q with
  | case1 => rfl
  | case2 rest =>
      rw [read_quote]
      show _ = (read q ['"']).1.meaning
      rw [read_quote]
  | case3 rest =>
      rw [read_lineFeed]
      show _ = (read q ['\n']).1.meaning
      rw [read_lineFeed]
      rfl
  | case4 => rfl
  | case5 rest =>
      rw [read_escaped_lineFeed]
      show _ = (read q ['\\', '\n']).1.meaning
      rw [read_escaped_lineFeed]
      rfl
  | case6 d rest hfeed _ _ later ih =>
      rw [read_escape hfeed, List.cons_append, List.cons_append, read_escape hfeed]
      exact meaning_pushEscape (ih _ _)
  | case7 c rest hquote hfeed hslash later ih =>
      rw [read_plain hfeed hquote hslash, List.cons_append, read_plain hfeed hquote hslash]
      exact meaning_push (ih _ _)

/-- A literal that is closed ends with its quote, and the text after that is left. -/
theorem split_of_closed {p : Position} {text decoded : List Char}
    (h : (read p text).1 = closed decoded) :
    (splitLiteral text).2 = (.quote, (read p text).2.rest) := by
  fun_induction read p text generalizing decoded with
  | case1 | case3 | case4 | case5 => cases h
  | case2 p rest =>
      rw [splitLiteral.eq_def]
      rfl
  | case6 p d rest hfeed =>
      rename_i ih
      obtain ⟨_, _, -, hlater, -⟩ := pushEscape_eq_closed h
      rw [splitLiteral.eq_def]
      simpa [hfeed] using ih hlater
  | case7 p c rest hquote hfeed hslash =>
      rename_i ih
      obtain ⟨_, hlater, -⟩ := push_eq_closed h
      rw [splitLiteral.eq_def]
      simpa [hquote, hfeed, hslash] using ih hlater

end Literal

/-! ## The first token of a text -/

/-- Blanks in front make no difference to the tokens. -/
theorem rawTokens_dropWhile (text : List Char) :
    rawTokens (text.dropWhile isBlank) = rawTokens text := by
  induction text with
  | nil => rfl
  | cons c rest ih =>
      by_cases hc : isBlank c = true
      · rw [List.dropWhile_cons_of_pos hc, ih, rawTokens, if_pos hc]
      · rw [List.dropWhile_cons_of_neg hc]

/-- `Begins tokens upcoming` says that what comes next is what the first of the tokens means, and
that the other tokens are those of the text after it. -/
inductive Begins : List RawToken → Upcoming → Prop where
  | nothing (stop : Cursor) : Begins [] (.nothing stop)
  | fault {token : RawToken} {tokens : List RawToken} {error : ReadError} {stop : Cursor} :
      token.meaning = .error error.fault → Begins (token :: tokens) (.fault error stop)
  | lexeme {token : RawToken} {tokens : List RawToken} {l : Lexeme} :
      token.meaning = .ok l.token.upcase → tokens = rawTokens l.stop.rest →
      Begins (token :: tokens) (.lexeme l)

/-- The literal at a quote is what its characters up to its end mean. -/
theorem begins_literal (start : Cursor) (text : List Char) :
    Begins (.literal (splitLiteral text).1 (splitLiteral text).2.1 ::
      if (splitLiteral text).2.1 = .quote then rawTokens (splitLiteral text).2.2 else [])
      (start.literal text) := by
  have hmeaning := Literal.meaning_read text (start.position.advance '"') .start
  have hclosed := @Literal.split_of_closed (start.position.advance '"') text
  unfold Cursor.literal
  rcases hread : Literal.read (start.position.advance '"') text with ⟨found, stop⟩
  rw [hread] at hmeaning hclosed
  cases found with
  | closed decoded =>
      have hsplit := hclosed rfl
      rw [hsplit] at hmeaning ⊢
      exact .lexeme hmeaning.symm rfl
  | badEscape | newline | unterminated => exact .fault hmeaning.symm

/-- What comes next at a cursor is what the first token of its text means. -/
theorem begins_next (cursor : Cursor) : Begins (rawTokens cursor.rest) cursor.next := by
  rw [← rawTokens_dropWhile]
  show Begins (rawTokens cursor.skipBlanks.rest) cursor.next
  unfold Cursor.next
  dsimp only
  split
  · next hrest =>
      rw [hrest, rawTokens]
      exact .nothing _
  · next c rest hrest =>
      have hblank := Cursor.isBlank_of_skipBlanks hrest
      have hadvance : cursor.skipBlanks.advance.rest = rest := by simp [Cursor.advance, hrest]
      rw [hrest, rawTokens, if_neg (by simp [hblank])]
      split
      · exact .lexeme rfl (by rw [hadvance])
      split
      · exact .lexeme rfl (by rw [hadvance])
      split
      · exact begins_literal _ rest
      · next hopen hclose hquote =>
          have hc : isDelimiter c = false := by simp [isDelimiter, hblank, hopen, hclose]
          have hskip : cursor.skipBlanks.skipAtom.rest = rest.dropWhile (!isDelimiter ·) := by
            simp [Cursor.skipAtom, Cursor.skipWhile, hrest, hc]
          have htake : (c :: rest).takeWhile (!isDelimiter ·) =
              c :: rest.takeWhile (!isDelimiter ·) := by
            simp [hc]
          exact .lexeme (by rw [htake]; rfl) (by rw [hskip])

/-! ## Reading without places -/

/-- The cursor at the beginning of the empty text, which stands for any other. -/
def nowhere : Cursor := .ofText []

/-- Every place becomes the beginning of a text. -/
def toStart (_ : Position) : Position := .start

/-- The lexeme with its atom in upper case and without its place. -/
def Lexeme.unplaced (l : Lexeme) : Lexeme := ⟨l.token.upcase, nowhere, nowhere⟩

/-- The end of a scan without its place. -/
def Ending.unplaced (ending : Ending) : Ending :=
  ⟨ending.fault.map (ReadError.move toStart), nowhere⟩

/-- The scan without places. -/
def Scan.unplaced (found : Scan) : Scan :=
  ⟨found.lexemes.map Lexeme.unplaced, found.ending.unplaced⟩

/-- The outcome of reading without places. -/
def Outcome.unplaced (outcome : Outcome) : Outcome where
  forms := outcome.forms.map fun form => (form.1.relocate (some ∘ toStart), nowhere)
  halt := outcome.halt.move toStart
  cursor := nowhere

/-- The scan, without places, of a text with these tokens: it goes on up to the first token that is
at fault. -/
def scanTokens : List RawToken → Scan
  | [] => ⟨[], none, nowhere⟩
  | token :: tokens =>
      match token.meaning with
      | .error fault => ⟨[], some ⟨fault, .start⟩, nowhere⟩
      | .ok token =>
          let later := scanTokens tokens
          ⟨⟨token, nowhere, nowhere⟩ :: later.lexemes, later.ending⟩

/-- Up to places, a scan is the scan of the tokens of the text. -/
theorem scan_unplaced (cursor : Cursor) :
    (scan cursor).unplaced = scanTokens (rawTokens cursor.rest) := by
  -- All that is needed of the tokens is how they begin, at each cursor of the scan.
  have hbegins := begins_next cursor
  generalize rawTokens cursor.rest = tokens at hbegins ⊢
  fun_induction scan cursor generalizing tokens with
  | case1 cursor stop hnext =>
      rw [hnext] at hbegins
      cases hbegins
      rfl
  | case2 cursor error stop hnext =>
      rw [hnext] at hbegins
      cases hbegins with
      | fault hmeaning =>
          simp only [scanTokens, hmeaning]
          rfl
  | case3 cursor l hnext later ih =>
      rw [hnext] at hbegins
      cases hbegins with
      | lexeme hmeaning hrest =>
          have hlater := ih _ (begins_next l.stop)
          rw [← hrest] at hlater
          simp only [scanTokens, hmeaning, ← hlater]
          rfl

/-- An atom is the same form in upper case. -/
theorem Node.ofAtom_upcase (text : List Char) (p : Position) :
    Node.ofAtom (text.map Char.toUpper) p = Node.ofAtom text p := by
  unfold Node.ofAtom
  rw [isDigits_upcase]
  split
  · next hdigits =>
      have hall := List.all_eq_true.mp (Bool.and_eq_true_iff.mp hdigits).2
      rw [List.map_congr_left fun c hc => toUpper_of_isDigit (hall c hc), List.map_id']
  · have hupper : String.ofList (text.map Char.toUpper) = upcase (String.ofList text) := by
      rw [upcase, String.toList_ofList]
    rw [hupper, Symbol.ofText_eq_ofText.mpr (upcase_upcase _)]

/-- A lexeme without its place has the same effect on lists without places. -/
theorem Lexeme.shift_unplaced (limit : Int) (depth : Nat) (stack : List OpenList) (l : Lexeme) :
    l.unplaced.shift limit depth (stack.map (OpenList.move toStart)) =
      (l.shift limit depth stack).move toStart := by
  rw [← Lexeme.shift_move]
  obtain ⟨token, start, stop⟩ := l
  cases token with
  | opening | closing | literal => rfl
  | atom text => exact congrArg (Shift.completed · _) (Node.ofAtom_upcase text .start)

/-- Without places, lexemes are assembled in the same way. -/
theorem assemble_unplaced (limit : Int) (depth : Nat) (ending : Ending) (stack : List OpenList)
    (lexemes : List Lexeme) :
    (assemble limit depth ending stack lexemes).unplaced =
      assemble limit depth ending.unplaced (stack.map (OpenList.move toStart))
        (lexemes.map Lexeme.unplaced) := by
  induction lexemes generalizing stack with
  | nil =>
      obtain ⟨fault, stop⟩ := ending
      cases fault <;> cases stack <;> rfl
  | cons l lexemes ih =>
      have hshift := l.shift_unplaced limit depth stack
      rw [List.map_cons, assemble, assemble, hshift]
      cases l.shift limit depth stack with
      | opened opened => exact ih opened
      | halted halt => rfl
      | completed node outer =>
          cases outer with
          | nil =>
              have hlater := ih []
              simp only [Shift.move, List.map_nil] at hlater ⊢
              rw [← hlater]
              rfl
          | cons opened outer => exact ih (opened.push node :: outer)

/-- Up to places, reading depends on the tokens of the text alone. -/
theorem resume_unplaced (limit : Int) (depth : Nat) (cursor : Cursor) :
    (resume limit depth [] cursor).unplaced =
      assemble limit depth (scanTokens (rawTokens cursor.rest)).ending []
        (scanTokens (rawTokens cursor.rest)).lexemes := by
  rw [← scan_unplaced]
  exact assemble_unplaced limit depth _ [] _

/-! ## Texts with the same tokens -/

/-- Without their places the forms are the same, apart from positions. -/
theorem Outcome.bareItems_unplaced (outcome : Outcome) :
    Node.bareItems (outcome.unplaced.forms.map Prod.fst) =
      Node.bareItems (outcome.forms.map Prod.fst) := by
  have hforms : outcome.unplaced.forms.map Prod.fst =
      Node.relocateItems (some ∘ toStart) (outcome.forms.map Prod.fst) := by
    rw [Node.relocateItems_eq_map, unplaced, List.map_map, List.map_map]
    rfl
  rw [hforms, Node.bareItems_relocate]

/-- Reading came to the same: to forms that are the same apart from positions, or to the same fault,
whose kind and message do not say where it is. -/
def ReadsLike : Except ReadError (List Node) → Except ReadError (List Node) → Prop
  | .ok forms, .ok others => Node.sameItems forms others = true
  | .error error, .error other => error.fault = other.fault
  | _, _ => False

/-- Texts that are read alike without places are read alike. -/
theorem readsLike_of_unplaced {source other : String} {limit : Int}
    (h : (resume limit 0 [] (.ofText source.toList)).unplaced =
      (resume limit 0 [] (.ofText other.toList)).unplaced) :
    ReadsLike (parse source limit) (parse other limit) := by
  have hhalt : (resume limit 0 [] (.ofText source.toList)).halt.move toStart =
      (resume limit 0 [] (.ofText other.toList)).halt.move toStart := congrArg Outcome.halt h
  cases hcase : (resume limit 0 [] (.ofText source.toList)).halt with
  | fault error =>
      rw [hcase] at hhalt
      cases hother : (resume limit 0 [] (.ofText other.toList)).halt with
      | fault found =>
          rw [hother] at hhalt
          have herror : error.move toStart = found.move toStart := Halt.fault.inj hhalt
          rw [parse_of_fault hcase, parse_of_fault hother]
          show (error.move toStart).fault = (found.move toStart).fault
          rw [herror]
      | finished | unmatched =>
          rw [hother] at hhalt
          cases hhalt
  | finished | unmatched =>
      have hnofault : ∀ error,
          (resume limit 0 [] (.ofText other.toList)).halt ≠ .fault error := by
        intro error herror
        rw [hcase, herror] at hhalt
        cases hhalt
      have hread : parse source limit = .ok _ := parse_eq_ok_iff.mpr ⟨by simp [hcase], rfl⟩
      have hother : parse other limit = .ok _ := parse_eq_ok_iff.mpr ⟨hnofault, rfl⟩
      rw [hread, hother]
      refine (Node.sameItems_iff _ _).mpr ?_
      rw [← Outcome.bareItems_unplaced, h, Outcome.bareItems_unplaced]

/-- Texts that are read alike on a machine end alike there, and they leave the same output and the
same words. -/
theorem Interpreter.run_of_readsLike {source other : String} {m : Machine}
    (h : ReadsLike (parse source m.limit) (parse other m.limit)) :
    EndsLike (run source m).1 (run other m).1 ∧
      (run source m).2.output = (run other m).2.output ∧
      (run source m).2.words = (run other m).2.words := by
  cases hread : parse source m.limit with
  | error error =>
      cases hother : parse other m.limit with
      | error found =>
          rw [hread, hother] at h
          rw [run, run, bind_read_of_error hread, bind_read_of_error hother]
          exact ⟨h, rfl, rfl⟩
      | ok others => simp [hread, hother, ReadsLike] at h
  | ok forms =>
      cases hother : parse other m.limit with
      | error found => simp [hread, hother, ReadsLike] at h
      | ok others =>
          rw [hread, hother] at h
          have hsame := (Node.sameItems_iff forms others).mp h
          obtain ⟨hend, hafter⟩ :=
            run_matches_of_same_forms hread hother hsame m m ⟨rfl, rfl, rfl, rfl⟩
          exact ⟨endsLike_of_relocate hend, hafter.output_eq, hafter.words_eq⟩

/-- Source texts with the same tokens are read alike under every limit, and run on any machine they
end alike and leave the same output and the same words. -/
theorem reading_depends_on_tokens (source other : String)
    (h : rawTokens source.toList = rawTokens other.toList) :
    (∀ limit, ReadsLike (parse source limit) (parse other limit)) ∧
      ∀ m, EndsLike (Interpreter.run source m).1 (Interpreter.run other m).1 ∧
        (Interpreter.run source m).2.output = (Interpreter.run other m).2.output ∧
        (Interpreter.run source m).2.words = (Interpreter.run other m).2.words := by
  have hread : ∀ limit, ReadsLike (parse source limit) (parse other limit) := by
    intro limit
    have htokens : rawTokens (Cursor.ofText source.toList).rest =
        rawTokens (Cursor.ofText other.toList).rest := h
    refine readsLike_of_unplaced ?_
    rw [resume_unplaced, resume_unplaced, htokens]
  exact ⟨hread, fun m => Interpreter.run_of_readsLike (hread m.limit)⟩

/-- Programs with the same tokens but another layout and other letters do the same, and texts that
differ in these and after the end of a line within a literal have the same fault. -/
theorem tokens_decide_run_and_fault :
    rawTokens "(print-int(read-int))(Foo \"a B\"7))x".toList =
        rawTokens " (PRINT-INT (Read-Int))\n(foo\t\"a B\" 7) )X".toList ∧
      EndsLike (Interpreter.run "(print-int(read-int))(Foo \"a B\"7))x" (.ofInput "5 6" 2)).1
        (Interpreter.run " (PRINT-INT (Read-Int))\n(foo\t\"a B\" 7) )X" (.ofInput "5 6" 2)).1 ∧
      (Interpreter.run "(print-int(read-int))(Foo \"a B\"7))x" (.ofInput "5 6" 2)).2.output =
        ['5', '\n'] ∧
      (Interpreter.run "(print-int(read-int))(Foo \"a B\"7))x" (.ofInput "5 6" 2)).2.words =
        [['6']] ∧
      rawTokens "(x \"\\q\\\ny)".toList = rawTokens "(\tX\n\"\\q\\\n(".toList ∧
      ReadsLike (parse "(x \"\\q\\\ny)" 1) (.error ⟨.newline, ⟨7, 2, 4⟩⟩) := by
  have htokens : rawTokens "(print-int(read-int))(Foo \"a B\"7))x".toList =
      rawTokens " (PRINT-INT (Read-Int))\n(foo\t\"a B\" 7) )X".toList := by
    decide +kernel
  have hraw : rawTokens "(x \"\\q\\\ny)".toList = rawTokens "(\tX\n\"\\q\\\n(".toList := by
    decide +kernel
  have hfault : parse "(\tX\n\"\\q\\\n(" 1 = .error ⟨.newline, ⟨7, 2, 4⟩⟩ :=
    parse_of_fault (by decide +kernel)
  obtain ⟨-, hrun⟩ := reading_depends_on_tokens _ _ htokens
  obtain ⟨hend, houtput, hwords⟩ := hrun (.ofInput "5 6" 2)
  obtain ⟨hread, -⟩ := reading_depends_on_tokens _ _ hraw
  have hlike := hread 1
  rw [hfault] at hlike
  refine ⟨htokens, hend, ?_, ?_, hraw, hlike⟩
  · rw [houtput]
    decide +kernel
  · rw [hwords]
    decide +kernel

end Sexpr
