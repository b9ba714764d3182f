import Mathlib.Data.List.TakeWhile

/-!
# Tokens of a SQL script

PostgreSQL's lexical grammar, with `standard_conforming_strings` on, as far as it says where a token begins and
ends. Every character that starts none is a token of its own; which of them form an operator makes no difference
here. A script is rejected where a comment or a quote does not end.
-/

namespace SqlTokens

inductive Token where
  | lineComment (text : List Char)
  | blockComment (text : List Char)
  | string (text : List Char)
  /-- With the `E`, or without it where it continues another. -/
  | escapeString (text : List Char)
  | quotedIdentifier (text : List Char)
  | dollarQuoted (tag body : List Char)
  | identifier (text : List Char)
  | number (text : List Char)
  | semicolon
  | char (c : Char)
  deriving DecidableEq

def dollarDelimiter (tag : List Char) : List Char := '$' :: tag ++ ['$']

def Token.text : Token → List Char
  | .lineComment text | .blockComment text | .string text | .escapeString text | .quotedIdentifier text
  | .identifier text | .number text => text
  | .dollarQuoted tag body => dollarDelimiter tag ++ body ++ dollarDelimiter tag
  | .semicolon => [';']
  | .char c => [c]

/-! ## Character classes -/

def isNewline (c : Char) : Bool := c == '\n' || c == '\r'

def isSpace (c : Char) : Bool := c == ' ' || c == '\t' || c == '\x0b' || c == '\x0c' || isNewline c

/-- A letter, an underscore or any character beyond ASCII. -/
def isIdentStart (c : Char) : Bool := c.isAlpha || c == '_' || 128 ≤ c.toNat

def isTagCont (c : Char) : Bool := isIdentStart c || c.isDigit

def isIdentCont (c : Char) : Bool := isTagCont c || c == '$'

/-! ## Quotes and comments -/

/-- A scanned text with a piece in front of it. -/
def prepend (piece : List Char) : Option (List Char × List Char) → Option (List Char × List Char) :=
  Option.map fun scanned => (piece ++ scanned.1, scanned.2)

/-- The rest of a block comment with `depth` comments around it. -/
def blockComment : ℕ → List Char → Option (List Char × List Char)
  | _, [] => none
  | _, [_] => none
  | depth, c :: n :: rest =>
    if c = '*' ∧ n = '/' then
      match depth with
      | 0 => some (['*', '/'], rest)
      | depth + 1 => prepend ['*', '/'] (blockComment depth rest)
    else if c = '/' ∧ n = '*' then prepend ['/', '*'] (blockComment (depth + 1) rest)
    else prepend [c] (blockComment depth (n :: rest))

/-- The rest of a text in quotes, where a doubled quote stands for one. -/
def quoted (quote : Char) : List Char → Option (List Char × List Char)
  | [] => none
  | [c] => if c = quote then some ([c], []) else none
  | c :: n :: rest =>
    if c = quote then
      if n = quote then prepend [c, n] (quoted quote rest) else some ([c], n :: rest)
    else prepend [c] (quoted quote (n :: rest))

/-- The rest of an escape string. -/
def escaped : List Char → Option (List Char × List Char)
  | [] => none
  | [c] => if c = '\'' then some ([c], []) else none
  | c :: n :: rest =>
    if c = '\\' then prepend [c, n] (escaped rest)
    else if c = '\'' then
      if n = '\'' then prepend [c, n] (escaped rest) else some ([c], n :: rest)
    else prepend [c] (escaped (n :: rest))

/-- The tag of a dollar quote, on the text behind the first `$`. -/
def dollarTag (isStart isCont : Char → Bool) (text : List Char) : Option (List Char) :=
  let tag := text.takeWhile isCont
  if (text.dropWhile isCont).head? = some '$' ∧ tag.head?.all isStart = true then some tag else none

/-- Where a text first occurs in another. -/
def firstIndex (pattern : List Char) : List Char → Option ℕ
  | [] => none
  | c :: rest => if pattern.isPrefixOf (c :: rest) then some 0 else (firstIndex pattern rest).map (· + 1)

/-- The rest of a dollar-quoted body, on the text behind its opening delimiter. -/
def dollarBody (tag text : List Char) : Option (Token × List Char) :=
  match firstIndex (dollarDelimiter tag) text with
  | none => none
  | some n => some (.dollarQuoted tag (text.take n), text.drop (n + (dollarDelimiter tag).length))

/-! ## The lexer -/

/-- What stands between an escape string and the next token: only spaces and line comments, with a newline among
them or not, so that a quote continues the string or does not. -/
abbrev Continuation := Option Bool

def Continuation.next (k : Continuation) : Token → Continuation
  | .escapeString _ => some false
  | .lineComment _ => k
  | .char c => if isNewline c then k.map fun _ => true else if isSpace c then k else none
  | _ => none

/-- The first token, by longest match, and the text behind it. -/
def nextToken (k : Continuation) : List Char → Option (Token × List Char)
  | [] => none
  | c :: rest =>
    if c = '-' ∧ rest.head? = some '-' then
      some (.lineComment (c :: rest.takeWhile (!isNewline ·)), rest.dropWhile (!isNewline ·))
    else if c = '/' ∧ rest.head? = some '*' then
      (blockComment 0 rest.tail).map fun scanned => (.blockComment (c :: '*' :: scanned.1), scanned.2)
    else if c = '\'' then
      if k = some true then (escaped rest).map fun scanned => (.escapeString (c :: scanned.1), scanned.2)
      else (quoted '\'' rest).map fun scanned => (.string (c :: scanned.1), scanned.2)
    else if (c = 'e' ∨ c = 'E') ∧ rest.head? = some '\'' then
      (escaped rest.tail).map fun scanned => (.escapeString (c :: '\'' :: scanned.1), scanned.2)
    else if c = '"' then (quoted '"' rest).map fun scanned => (.quotedIdentifier (c :: scanned.1), scanned.2)
    else if c = '$' then
      match dollarTag isIdentStart isTagCont rest with
      | none => some (.char c, rest)
      | some tag => dollarBody tag (rest.drop (tag.length + 1))
    else if c = ';' then some (.semicolon, rest)
    else if isIdentStart c = true then
      some (.identifier (c :: rest.takeWhile isIdentCont), rest.dropWhile isIdentCont)
    else if c.isDigit = true then some (.number (c :: rest.takeWhile isTagCont), rest.dropWhile isTagCont)
    else some (.char c, rest)

/-- The tokens of a text, `fuel` at most. -/
def lexFrom : ℕ → Continuation → List Char → Option (List Token)
  | _, _, [] => some []
  | 0, _, _ :: _ => none
  | fuel + 1, k, c :: text =>
    (nextToken k (c :: text)).bind fun next => (lexFrom fuel (k.next next.1) next.2).map (next.1 :: ·)

/-- The tokens of a script; every token has a character, so the fuel does not run out. -/
def lex (text : List Char) : Option (List Token) := lexFrom text.length none text

/-! ## Nothing is lost -/

theorem prepend_append {piece text rest text' rest' : List Char} {scanned : Option (List Char × List Char)}
    (hscanned : ∀ t r, scanned = some (t, r) → t ++ r = rest')
    (h : prepend piece scanned = some (text, rest)) (htext : text' = piece ++ rest') : text ++ rest = text' := by
  obtain ⟨⟨t, r⟩, hs, heq⟩ := Option.map_eq_some_iff.1 h
  cases heq
  rw [List.append_assoc, hscanned t r hs, htext]

theorem blockComment_append {depth : ℕ} {text piece rest : List Char}
    (h : blockComment depth text = some (piece, rest)) : piece ++ rest = text := by
  fun_induction blockComment depth text generalizing piece rest with
  | case1 | case2 => cases h
  | case3 c n tail hclose =>
    cases h
    rw [hclose.1, hclose.2]
    rfl
  | case4 c n tail hclose depth ih =>
    refine prepend_append (fun _ _ => ih) h ?_
    rw [hclose.1, hclose.2]
    rfl
  | case5 depth c n tail _ hopen ih =>
    refine prepend_append (fun _ _ => ih) h ?_
    rw [hopen.1, hopen.2]
    rfl
  | case6 depth c n tail _ _ ih => exact prepend_append (fun _ _ => ih) h rfl

theorem quoted_append {quote : Char} {text piece rest : List Char} (h : quoted quote text = some (piece, rest)) :
    piece ++ rest = text := by
  fun_induction quoted quote text generalizing piece rest with
  | case1 => cases h
  | case2 =>
    cases h
    rfl
  | case3 => cases h
  | case4 tail ih => exact prepend_append (fun _ _ => ih) h rfl
  | case5 =>
    cases h
    rfl
  | case6 c n tail hc ih => exact prepend_append (fun _ _ => ih) h rfl

theorem escaped_append {text piece rest : List Char} (h : escaped text = some (piece, rest)) :
    piece ++ rest = text := by
  fun_induction escaped text generalizing piece rest with
  | case1 => cases h
  | case2 =>
    cases h
    rfl
  | case3 => cases h
  | case4 n tail ih => exact prepend_append (fun _ _ => ih) h rfl
  | case5 c tail ih => exact prepend_append (fun _ _ => ih) h rfl
  | case6 =>
    cases h
    rfl
  | case7 c n tail _ _ ih => exact prepend_append (fun _ _ => ih) h rfl

theorem firstIndex_append {pattern text : List Char} {n : ℕ} (h : firstIndex pattern text = some n) :
    text.take n ++ pattern ++ text.drop (n + pattern.length) = text := by
  induction text generalizing n with
  | nil => cases h
  | cons c text ih =>
    rw [firstIndex] at h
    split at h
    · next hprefix =>
      cases h
      obtain ⟨rest, hrest⟩ := List.isPrefixOf_iff_prefix.1 hprefix
      rw [← hrest, Nat.zero_add, List.drop_left]
      rfl
    · obtain ⟨m, hm, rfl⟩ := Option.map_eq_some_iff.1 h
      rw [Nat.add_right_comm, List.take_succ_cons, List.drop_succ_cons]
      exact congrArg (c :: ·) (ih hm)

/-- A tag is what stands in front of the next `$`, of the right characters. -/
theorem dollarTag_eq_some_iff {isStart isCont : Char → Bool} (hdollar : isCont '$' = false) {text tag : List Char} :
    dollarTag isStart isCont text = some tag ↔
      (∃ rest, text = tag ++ '$' :: rest) ∧ (∀ c ∈ tag, isCont c = true) ∧ tag.head?.all isStart = true := by
  simp only [dollarTag]
  constructor
  · intro h
    split at h
    · next htag =>
      cases h
      obtain ⟨rest, hrest⟩ := List.head?_eq_some_iff.1 htag.1
      refine ⟨⟨rest, ?_⟩, fun c hc => List.mem_takeWhile_imp hc, htag.2⟩
      rw [← hrest, List.takeWhile_append_dropWhile]
    · cases h
  · rintro ⟨⟨rest, rfl⟩, hcont, hstart⟩
    have htake : (tag ++ '$' :: rest).takeWhile isCont = tag := by
      rw [List.takeWhile_append_of_pos hcont, List.takeWhile_cons_of_neg (by rw [hdollar]; exact Bool.false_ne_true),
        List.append_nil]
    have hdrop : (tag ++ '$' :: rest).dropWhile isCont = '$' :: rest := by
      rw [List.dropWhile_append_of_pos hcont, List.dropWhile_cons_of_neg (by rw [hdollar]; exact Bool.false_ne_true)]
    rw [htake, hdrop, if_pos ⟨rfl, hstart⟩]

theorem dollarTag_append {tag text : List Char} (h : dollarTag isIdentStart isTagCont text = some tag) :
    tag ++ '$' :: text.drop (tag.length + 1) = text := by
  obtain ⟨⟨rest, rfl⟩, -, -⟩ := (dollarTag_eq_some_iff (by decide)).1 h
  rw [← List.drop_drop, List.drop_left]
  rfl

theorem dollarBody_append {tag text rest : List Char} {token : Token}
    (h : dollarBody tag text = some (token, rest)) : token.text ++ rest = dollarDelimiter tag ++ text := by
  rw [dollarBody] at h
  split at h
  · cases h
  · next n hn =>
    cases h
    rw [Token.text, List.append_assoc, List.append_assoc, ← List.append_assoc (text.take n)]
    rw [firstIndex_append hn]

/-- A token and the rest are the text. -/
theorem nextToken_append {k : Continuation} {text rest : List Char} {token : Token}
    (h : nextToken k text = some (token, rest)) : token.text ++ rest = text := by
  cases text with
  | nil => cases h
  | cons c tail =>
    rw [nextToken] at h
    split at h
    · cases h
      exact congrArg (c :: ·) List.takeWhile_append_dropWhile
    split at h
    · next hopen =>
      obtain ⟨scanned, hscanned, heq⟩ := Option.map_eq_some_iff.1 h
      cases heq
      obtain ⟨tail, rfl⟩ := List.head?_eq_some_iff.1 hopen.2
      exact congrArg (c :: '*' :: ·) (blockComment_append hscanned)
    split at h
    · split at h
      · obtain ⟨scanned, hscanned, heq⟩ := Option.map_eq_some_iff.1 h
        cases heq
        exact congrArg (c :: ·) (escaped_append hscanned)
      · obtain ⟨scanned, hscanned, heq⟩ := Option.map_eq_some_iff.1 h
        cases heq
        exact congrArg (c :: ·) (quoted_append hscanned)
    split at h
    · next hopen =>
      obtain ⟨scanned, hscanned, heq⟩ := Option.map_eq_some_iff.1 h
      cases heq
      obtain ⟨tail, rfl⟩ := List.head?_eq_some_iff.1 hopen.2
      exact congrArg (c :: '\'' :: ·) (escaped_append hscanned)
    split at h
    · obtain ⟨scanned, hscanned, heq⟩ := Option.map_eq_some_iff.1 h
      cases heq
      exact congrArg (c :: ·) (quoted_append hscanned)
    split at h
    · next hdollar =>
      split at h
      · cases h
        rfl
      · next tag htag =>
        rw [dollarBody_append h, dollarDelimiter, List.cons_append, List.cons_append, List.append_assoc,
          List.singleton_append, dollarTag_append htag, hdollar]
    split at h
    · next hsemicolon =>
      cases h
      rw [hsemicolon]
      rfl
    split at h
    · cases h
      exact congrArg (c :: ·) List.takeWhile_append_dropWhile
    split at h
    · cases h
      exact congrArg (c :: ·) List.takeWhile_append_dropWhile
    · cases h
      rfl

/-- The tokens of a script are its text, cut into pieces. -/
theorem lexFrom_append {fuel : ℕ} {k : Continuation} {text : List Char} {tokens : List Token}
    (h : lexFrom fuel k text = some tokens) : tokens.flatMap Token.text = text := by
  induction fuel generalizing k text tokens with
  | zero =>
    cases text with
    | nil =>
      cases h
      rfl
    | cons => cases h
  | succ fuel ih =>
    cases text with
    | nil =>
      cases h
      rfl
    | cons c text =>
      obtain ⟨⟨token, rest⟩, hnext, hrest⟩ := Option.bind_eq_some_iff.1 h
      obtain ⟨tokens, htokens, rfl⟩ := Option.map_eq_some_iff.1 hrest
      rw [List.flatMap_cons, ih htokens]
      exact nextToken_append hnext

/-- The tokens of a script are its text, cut. -/
theorem lex_append {text : List Char} {tokens : List Token} (h : lex text = some tokens) :
    tokens.flatMap Token.text = text :=
  lexFrom_append h

end SqlTokens
