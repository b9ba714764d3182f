import Mathlib.Data.List.DropRight
import Kumiko.Library.SqlTokens
import Kumiko.Pipeline.IdentitySwitch

/-!
# Splitting a script into statements

`splitSqlStatements` of `db/migrate-runner.ts` is a scan over characters with five modes, beside PostgreSQL's
own tokens (`SqlTokens.lex`). On a script whose tokens are all plain (`plainScript`) it cuts where the tokens
have a semicolon (`splitSqlStatements_of_plain`).
-/

namespace Kumiko

open SqlTokens

/-! ## The scan -/

/-- Reference: `SqlScanState`. -/
inductive SqlScanState where
  | normal
  | lineComment
  | blockComment
  | singleQuote
  | doubleQuote
  deriving DecidableEq

/-- What `splitSqlStatements` throws: `unterminated blockComment`, `unterminated dollar-quoted body $tag$`, … -/
inductive SplitError where
  | unterminated (state : SqlScanState)
  | unterminatedDollarQuotedBody (opening : List Char)
  deriving DecidableEq

/-- The variables of the loop. `skip` counts the characters the index has jumped over already. -/
structure SplitState where
  statements : List (List Char)
  current : List Char
  state : SqlScanState
  blockCommentDepth : ℕ
  skip : ℕ

/-- `[A-Za-z_]` -/
def isTagStartAscii (c : Char) : Bool := c.isAlpha || c == '_'

/-- `\w` -/
def isWordChar (c : Char) : Bool := isTagStartAscii c || c.isDigit

/-- `^\$([A-Za-z_]\w*)?\$`, on the text behind the first `$`. -/
def dollarOpening (rest : List Char) : Option (List Char) :=
  (dollarTag isTagStartAscii isWordChar rest).map dollarDelimiter

namespace SplitState

def initial : SplitState := ⟨[], [], .normal, 0, 0⟩

/-- `current += …` -/
def push (s : SplitState) (text : List Char) : SplitState := { s with current := s.current ++ text }

/-- A character in quotes. -/
def scanQuoted (s : SplitState) (quote ch : Char) (rest : List Char) : SplitState :=
  if ch = quote then
    if rest.head? = some quote then { s.push [ch, quote] with skip := 1 } else { s.push [ch] with state := .normal }
  else s.push [ch]

/-- The dollar-quoted body that begins here is taken over as it stands. -/
def scanDollar (s : SplitState) (opening : List Char) (rest : List Char) : Except SplitError SplitState :=
  match firstIndex opening (rest.drop (opening.length - 1)) with
  | none => .error (.unterminatedDollarQuotedBody opening)
  | some closeAt =>
    let length := opening.length - 1 + closeAt + opening.length
    .ok { s.push ('$' :: rest.take length) with skip := length }

/-- A character outside of comments and quotes. -/
def scanNormal (s : SplitState) (ch : Char) (rest : List Char) : Except SplitError SplitState :=
  if ch = '-' ∧ rest.head? = some '-' then .ok { s with state := .lineComment, skip := 1 }
  else if ch = '/' ∧ rest.head? = some '*' then
    .ok { s with state := .blockComment, blockCommentDepth := 1, skip := 1 }
  else if ch = '\'' then .ok { s.push [ch] with state := .singleQuote }
  else if ch = '"' then .ok { s.push [ch] with state := .doubleQuote }
  else
    match if ch = '$' then dollarOpening rest else none with
    | some opening => s.scanDollar opening rest
    | none =>
      if ch = ';' then .ok { s with statements := s.statements ++ [s.current], current := [] }
      else .ok (s.push [ch])

/-- A character in a block comment. -/
def scanBlockComment (s : SplitState) (ch : Char) (rest : List Char) : SplitState :=
  if ch = '/' ∧ rest.head? = some '*' then { s with blockCommentDepth := s.blockCommentDepth + 1, skip := 1 }
  else if ch = '*' ∧ rest.head? = some '/' then
    let depth := s.blockCommentDepth - 1
    if depth = 0 then { s.push [' '] with state := .normal, blockCommentDepth := depth, skip := 1 }
    else { s with blockCommentDepth := depth, skip := 1 }
  else s

/-- The body of the loop. -/
def scanChar (s : SplitState) (ch : Char) (rest : List Char) : Except SplitError SplitState :=
  match s.state with
  | .lineComment => .ok (if ch = '\n' then { s.push [ch] with state := .normal } else s)
  | .blockComment => .ok (s.scanBlockComment ch rest)
  | .singleQuote => .ok (s.scanQuoted '\'' ch rest)
  | .doubleQuote => .ok (s.scanQuoted '"' ch rest)
  | .normal => s.scanNormal ch rest

/-- Behind the loop. -/
def finish (s : SplitState) : Except SplitError (List (List Char)) :=
  match s.state with
  | .blockComment | .singleQuote | .doubleQuote => .error (.unterminated s.state)
  | .normal | .lineComment => .ok (s.statements ++ [s.current])

/-- The loop over the characters. -/
def scan (s : SplitState) : List Char → Except SplitError (List (List Char))
  | [] => s.finish
  | ch :: rest =>
    match s.skip with
    | skip + 1 => scan { s with skip := skip } rest
    | 0 =>
      match s.scanChar ch rest with
      | .error error => .error error
      | .ok s => scan s rest

end SplitState

/-- `String.prototype.trim` -/
def trimJs (text : List Char) : List Char := (text.dropWhile isTrimmedByJs).rdropWhile isTrimmedByJs

/-- Trimmed, without the empty ones, each with its semicolon. -/
def closeStatements (texts : List (List Char)) : List (List Char) :=
  ((texts.map trimJs).filter (· ≠ [])).map (· ++ [';'])

/-- Reference: `splitSqlStatements`. -/
def splitSqlStatements (sqlText : List Char) : Except SplitError (List (List Char)) :=
  (SplitState.initial.scan sqlText).map closeStatements

/-! ## What PostgreSQL's tokens say -/

/-- A text in front of the first of some texts. -/
def pushFirst (text : List Char) (texts : List (List Char)) : List (List Char) := texts.modifyHead (text ++ ·)

/-- The texts between the semicolons. -/
def statementTexts : List Token → List (List Char)
  | [] => [[]]
  | .semicolon :: tokens => [] :: statementTexts tokens
  | token :: tokens => pushFirst token.text (statementTexts tokens)

/-- The texts between the semicolons, without comments: of a block comment a space stays, and a line comment takes
a carriage return behind it along. -/
def uncommentedTexts (afterComment : Bool) : List Token → List (List Char)
  | [] => [[]]
  | .semicolon :: tokens => [] :: uncommentedTexts false tokens
  | .lineComment _ :: tokens => uncommentedTexts true tokens
  | .blockComment _ :: tokens => pushFirst [' '] (uncommentedTexts false tokens)
  | token :: tokens =>
    if afterComment ∧ token = .char '\r' then uncommentedTexts true tokens
    else pushFirst token.text (uncommentedTexts false tokens)

/-- A backslash takes a quote along. -/
def escapesQuote : List Char → Bool
  | [] => false
  | [_] => false
  | c :: n :: rest => if c = '\\' then n == '\'' || escapesQuote rest else escapesQuote (n :: rest)

/-- A dollar delimiter stands in the text. -/
def opensDollar : List Char → Bool
  | [] => false
  | c :: rest => (c == '$' && (dollarOpening rest).isSome) || opensDollar rest

/-- The scan sees the token as it is. -/
def plainToken : Token → Bool
  | .escapeString text => !escapesQuote text
  | .identifier text => !opensDollar text
  | .dollarQuoted tag _ => tag.all isWordChar
  | _ => true

/-- A newline, one behind a carriage return, or the end. -/
def endsLine : List Token → Bool
  | [] => true
  | [token] => token == .char '\n'
  | token :: next :: _ => token == .char '\n' || (token == .char '\r' && next == .char '\n')

/-- All tokens are plain, and line comments end with their line. -/
def plainScript : List Token → Bool
  | [] => true
  | .lineComment _ :: tokens => endsLine tokens && plainScript tokens
  | token :: tokens => plainToken token && plainScript tokens

/-! ## The scan on pieces of the text -/

namespace SplitState

variable {statements : List (List Char)} {current text rest piece : List Char} {depth : ℕ} {c n : Char}

theorem scan_skip (s : SplitState) (k : ℕ) (text : List Char) :
    { s with skip := k }.scan text = { s with skip := 0 }.scan (text.drop k) := by
  induction text generalizing k with
  | nil =>
    rw [List.drop_nil]
    rfl
  | cons c text ih =>
    cases k with
    | zero => rfl
    | succ k => exact ih k

/-- One round of the loop. -/
theorem scan_cons {s s' : SplitState} (hskip : s.skip = 0) (h : s.scanChar c rest = .ok s') :
    s.scan (c :: rest) = s'.scan rest := by
  rw [scan, hskip]
  simp only [h]

/-- One round that takes two characters. -/
theorem scan_cons_cons {s : SplitState} {statements : List (List Char)} {current : List Char}
    {state : SqlScanState} {depth : ℕ} (hskip : s.skip = 0)
    (h : s.scanChar c (n :: rest) = .ok ⟨statements, current, state, depth, 1⟩) :
    s.scan (c :: n :: rest) = (⟨statements, current, state, depth, 0⟩ : SplitState).scan rest := by
  rw [scan_cons hskip h]
  exact scan_skip ⟨statements, current, state, depth, 1⟩ 1 (n :: rest)

theorem scan_lineComment (text : List Char) :
    (⟨statements, current, .lineComment, depth, 0⟩ : SplitState).scan text =
      (⟨statements, current, .lineComment, depth, 0⟩ : SplitState).scan (text.dropWhile (!isNewline ·)) := by
  induction text with
  | nil => rfl
  | cons c text ih =>
    rw [List.dropWhile_cons]
    split
    · next hnewline =>
      have hne : c ≠ '\n' := by
        rintro rfl
        cases hnewline
      rw [← ih]
      refine scan_cons rfl ?_
      simp only [scanChar, if_neg hne]
    · rfl

/-- A comment inside `depth` others ends where its tokens say, and leaves a space. -/
theorem scan_blockComment (h : blockComment depth text = some (piece, rest)) :
    (⟨statements, current, .blockComment, depth + 1, 0⟩ : SplitState).scan text =
      (⟨statements, current ++ [' '], .normal, 0, 0⟩ : SplitState).scan rest := by
  fun_induction blockComment depth text generalizing piece rest with
  | case1 | case2 => cases h
  | case3 c n tail hclose =>
    cases h
    obtain ⟨rfl, rfl⟩ := hclose
    exact scan_cons_cons rfl rfl
  | case4 c n tail hclose depth ih =>
    obtain ⟨scanned, hscanned, heq⟩ := Option.map_eq_some_iff.1 h
    cases heq
    obtain ⟨rfl, rfl⟩ := hclose
    exact (scan_cons_cons rfl rfl).trans (ih hscanned)
  | case5 depth c n tail _ hopen ih =>
    obtain ⟨scanned, hscanned, heq⟩ := Option.map_eq_some_iff.1 h
    cases heq
    obtain ⟨rfl, rfl⟩ := hopen
    exact (scan_cons_cons rfl rfl).trans (ih hscanned)
  | case6 depth c n tail hclose hopen ih =>
    obtain ⟨scanned, hscanned, heq⟩ := Option.map_eq_some_iff.1 h
    cases heq
    refine (scan_cons rfl ?_).trans (ih hscanned)
    have hopen' : ¬ (c = '/' ∧ (n :: tail).head? = some '*') := by simpa using hopen
    have hclose' : ¬ (c = '*' ∧ (n :: tail).head? = some '/') := by simpa using hclose
    simp only [scanChar, scanBlockComment, if_neg hopen', if_neg hclose']

/-- A text in quotes, whatever the quotes are. -/
theorem scan_quoted {quote : Char} {state : SqlScanState}
    (hstate : ∀ s : SplitState, s.state = state → ∀ c rest, s.scanChar c rest = .ok (s.scanQuoted quote c rest))
    (h : quoted quote text = some (piece, rest)) :
    (⟨statements, current, state, depth, 0⟩ : SplitState).scan text =
      (⟨statements, current ++ piece, .normal, depth, 0⟩ : SplitState).scan rest := by
  fun_induction quoted quote text generalizing piece rest current with
  | case1 | case3 => cases h
  | case2 =>
    cases h
    refine scan_cons rfl ((hstate _ rfl _ _).trans ?_)
    simp only [scanQuoted, List.head?_nil, reduceCtorEq, if_true, if_false, push]
  | case4 tail ih =>
    obtain ⟨scanned, hscanned, heq⟩ := Option.map_eq_some_iff.1 h
    cases heq
    rw [← List.append_assoc]
    refine (scan_cons_cons rfl ((hstate _ rfl _ _).trans ?_)).trans (ih hscanned)
    simp only [scanQuoted, List.head?_cons, if_true, push]
  | case5 n tail hn =>
    cases h
    refine scan_cons rfl ((hstate _ rfl _ _).trans ?_)
    have hn' : ¬ (n :: tail).head? = some quote := by simpa using hn
    simp only [scanQuoted, if_true, if_neg hn', push]
  | case6 c n tail hc ih =>
    obtain ⟨scanned, hscanned, heq⟩ := Option.map_eq_some_iff.1 h
    cases heq
    rw [← List.append_assoc]
    refine (scan_cons rfl ((hstate _ rfl _ _).trans ?_)).trans (ih hscanned)
    simp only [scanQuoted, if_neg hc, push]

theorem escapesQuote_cons (hc : c ≠ '\\') (text : List Char) : escapesQuote (c :: text) = escapesQuote text := by
  cases text with
  | nil => rfl
  | cons n text => rw [escapesQuote, if_neg hc]

/-- An escape string in which no backslash takes a quote along is in quotes like any other. -/
theorem scan_escaped (h : escaped text = some (piece, rest)) (hplain : escapesQuote piece = false) :
    (⟨statements, current, .singleQuote, depth, 0⟩ : SplitState).scan text =
      (⟨statements, current ++ piece, .normal, depth, 0⟩ : SplitState).scan rest := by
  fun_induction escaped text generalizing piece rest current with
  | case1 | case3 => cases h
  | case2 =>
    cases h
    exact scan_cons rfl rfl
  | case4 n tail ih =>
    obtain ⟨scanned, hscanned, heq⟩ := Option.map_eq_some_iff.1 h
    cases heq
    have hpair : ¬ (n == '\'') = true ∧ escapesQuote scanned.1 = false := by
      simpa [escapesQuote] using hplain
    have hn : n ≠ '\'' := by simpa using hpair.1
    rw [← List.append_assoc]
    have hbackslash : (⟨statements, current, .singleQuote, depth, 0⟩ : SplitState).scan ('\\' :: n :: tail) =
        (⟨statements, current ++ ['\\'], .singleQuote, depth, 0⟩ : SplitState).scan (n :: tail) :=
      scan_cons rfl rfl
    have htaken : (⟨statements, current ++ ['\\'], .singleQuote, depth, 0⟩ : SplitState).scan (n :: tail) =
        (⟨statements, current ++ ['\\'] ++ [n], .singleQuote, depth, 0⟩ : SplitState).scan tail := by
      refine scan_cons rfl ?_
      simp only [scanChar, scanQuoted, if_neg hn, push]
    rw [hbackslash, htaken, List.append_assoc current]
    exact ih hscanned hpair.2
  | case5 tail _ ih =>
    obtain ⟨scanned, hscanned, heq⟩ := Option.map_eq_some_iff.1 h
    cases heq
    rw [← List.append_assoc]
    refine (scan_cons_cons rfl rfl).trans (ih hscanned ?_)
    have hplain' : escapesQuote ('\'' :: '\'' :: scanned.1) = false := hplain
    rwa [escapesQuote_cons (by decide), escapesQuote_cons (by decide)] at hplain'
  | case6 n tail hn _ =>
    cases h
    refine scan_cons rfl ?_
    have hn' : ¬ (n :: tail).head? = some '\'' := by simpa using hn
    simp only [scanChar, scanQuoted, if_true, if_neg hn', push]
  | case7 c n tail hbackslash hc ih =>
    obtain ⟨scanned, hscanned, heq⟩ := Option.map_eq_some_iff.1 h
    cases heq
    rw [← List.append_assoc]
    have hplain' : escapesQuote (c :: scanned.1) = false := hplain
    rw [escapesQuote_cons hbackslash] at hplain'
    refine (scan_cons rfl ?_).trans (ih hscanned hplain')
    simp only [scanChar, scanQuoted, if_neg hc, push]

/-! ## The scan on tokens -/

/-- A character that opens nothing is taken over. -/
theorem scan_push (hdash : ¬ (c = '-' ∧ rest.head? = some '-')) (hslash : ¬ (c = '/' ∧ rest.head? = some '*'))
    (hquote : c ≠ '\'') (hdouble : c ≠ '"') (hsemicolon : c ≠ ';')
    (hdollar : c = '$' → dollarOpening rest = none) :
    (⟨statements, current, .normal, depth, 0⟩ : SplitState).scan (c :: rest) =
      (⟨statements, current ++ [c], .normal, depth, 0⟩ : SplitState).scan rest := by
  refine scan_cons rfl ?_
  have hopening : (if c = '$' then dollarOpening rest else none) = none := by
    split
    · next h => exact hdollar h
    · rfl
  simp only [scanChar, scanNormal, if_neg hdash, if_neg hslash, if_neg hquote, if_neg hdouble, hopening,
    if_neg hsemicolon, push]

/-- So is a run of characters of an identifier or a number in which no dollar quote opens. -/
theorem scan_run {run : List Char} (hrun : ∀ c ∈ run, isIdentCont c = true)
    (hdollar : ∀ pre post, run = pre ++ '$' :: post → dollarOpening (post ++ rest) = none) :
    (⟨statements, current, .normal, depth, 0⟩ : SplitState).scan (run ++ rest) =
      (⟨statements, current ++ run, .normal, depth, 0⟩ : SplitState).scan rest := by
  induction run generalizing current with
  | nil => rw [List.nil_append, List.append_nil]
  | cons c run ih =>
    have hc := hrun c List.mem_cons_self
    have hne (d : Char) (hd : isIdentCont d = false) : c ≠ d := by
      rintro rfl
      rw [hd] at hc
      cases hc
    have hhead : (⟨statements, current, .normal, depth, 0⟩ : SplitState).scan (c :: (run ++ rest)) =
        (⟨statements, current ++ [c], .normal, depth, 0⟩ : SplitState).scan (run ++ rest) := by
      refine scan_push (fun h => hne '-' (by decide) h.1) (fun h => hne '/' (by decide) h.1) (hne _ (by decide))
        (hne _ (by decide)) (hne _ (by decide)) ?_
      rintro rfl
      exact hdollar [] run rfl
    rw [List.cons_append, hhead, ih (fun d hd => hrun d (List.mem_cons_of_mem _ hd)) ?_, List.append_assoc]
    · rfl
    · rintro pre post rfl
      exact hdollar (c :: pre) post rfl

end SplitState

section

variable {text rest tag : List Char} {c : Char}

theorem isTagCont_of_isWordChar (h : isWordChar c = true) : isTagCont c = true := by
  simp only [isWordChar, isTagStartAscii, isTagCont, isIdentStart, Bool.or_eq_true] at h ⊢
  exact h.imp_left .inl

theorem isTagStartAscii_of_isWordChar (hword : isWordChar c = true) (hstart : isIdentStart c = true) :
    isTagStartAscii c = true := by
  simp only [isWordChar, Bool.or_eq_true] at hword
  rcases hword with hword | hdigit
  · exact hword
  · have hlow : c.toNat ≤ 57 := by
      simp only [Char.isDigit, Bool.and_eq_true, decide_eq_true_eq] at hdigit
      exact hdigit.2
    have hhigh : ¬ 128 ≤ c.toNat := by omega
    simp only [isIdentStart, hhigh, decide_false, Bool.or_false] at hstart
    exact hstart

/-- An ASCII tag is a tag. -/
theorem dollarTag_of_ascii (h : dollarTag isTagStartAscii isWordChar text = some tag) :
    dollarTag isIdentStart isTagCont text = some tag := by
  obtain ⟨htext, hword, hstart⟩ := (dollarTag_eq_some_iff (by decide)).1 h
  refine (dollarTag_eq_some_iff (by decide)).2 ⟨htext, fun c hc => isTagCont_of_isWordChar (hword c hc), ?_⟩
  cases tag with
  | nil => rfl
  | cons c tag =>
    have hc : isTagStartAscii c = true := hstart
    simp only [List.head?_cons, Option.all_some, isIdentStart]
    simp only [isTagStartAscii] at hc
    rw [hc, Bool.true_or]

/-- A tag of ASCII letters is one for the scan. -/
theorem dollarTag_ascii (h : dollarTag isIdentStart isTagCont text = some tag) (hascii : tag.all isWordChar = true) :
    dollarTag isTagStartAscii isWordChar text = some tag := by
  obtain ⟨htext, -, hstart⟩ := (dollarTag_eq_some_iff (by decide)).1 h
  have hword := List.all_eq_true.1 hascii
  refine (dollarTag_eq_some_iff (by decide)).2 ⟨htext, hword, ?_⟩
  cases tag with
  | nil => rfl
  | cons c tag => exact isTagStartAscii_of_isWordChar (hword c List.mem_cons_self) hstart

/-- Behind an identifier no dollar quote opens that began in it. -/
theorem dollarOpening_append {post : List Char} (h : dollarOpening post = none)
    (hrest : ∀ c, rest.head? = some c → isIdentCont c = false) : dollarOpening (post ++ rest) = none := by
  rw [dollarOpening, Option.map_eq_none_iff] at h ⊢
  by_contra hsome
  obtain ⟨tag, htag⟩ := Option.ne_none_iff_exists'.1 hsome
  obtain ⟨⟨more, htext⟩, hword, hstart⟩ := (dollarTag_eq_some_iff (by decide)).1 htag
  have hdollar : rest.head? ≠ some '$' := by
    intro hhead
    cases hrest '$' hhead
  rcases List.append_eq_append_iff.1 htext with ⟨mid, hmid, hmore⟩ | ⟨mid, hmid, hmore⟩
  · cases mid with
    | nil => exact hdollar (by rw [hmore]; rfl)
    | cons c mid =>
      have hc := hrest c (by rw [hmore]; rfl)
      rw [isIdentCont, isTagCont_of_isWordChar (hword c (by rw [hmid]; simp))] at hc
      cases hc
  · cases mid with
    | nil => exact hdollar (by rw [List.nil_append] at hmore; rw [← hmore]; rfl)
    | cons c mid =>
      obtain ⟨rfl, -⟩ := List.cons.inj hmore
      have hfound : dollarTag isTagStartAscii isWordChar post = some tag :=
        (dollarTag_eq_some_iff (by decide)).2 ⟨⟨mid, hmid⟩, hword, hstart⟩
      rw [hfound] at h
      cases h

/-- The identifier that opens no dollar quote has none at any of its `$`. -/
theorem dollarOpening_of_opensDollar {run : List Char} (h : opensDollar run = false) {pre post : List Char}
    (hrun : run = pre ++ '$' :: post) : dollarOpening post = none := by
  induction pre generalizing run with
  | nil =>
    rw [hrun, List.nil_append, opensDollar, Bool.or_eq_false_iff] at h
    simpa using h.1
  | cons c pre ih =>
    rw [hrun, List.cons_append, opensDollar, Bool.or_eq_false_iff] at h
    exact ih h.2 rfl

namespace SplitState

variable {statements : List (List Char)} {current : List Char} {depth : ℕ} {token : Token} {k : Continuation}

/-- The state behind a token. -/
def afterToken (s : SplitState) : Token → SplitState
  | .semicolon => { s with statements := s.statements ++ [s.current], current := [] }
  | .lineComment _ => { s with state := .lineComment }
  | .blockComment _ => { s.push [' '] with blockCommentDepth := 0 }
  | token => s.push token.text

/-- A dollar quote with an ASCII tag is taken over up to its closing delimiter. -/
theorem scan_dollarBody {rest' : List Char} (htag : dollarTag isIdentStart isTagCont rest = some tag)
    (hascii : tag.all isWordChar = true) (h : dollarBody tag (rest.drop (tag.length + 1)) = some (token, rest')) :
    (⟨statements, current, .normal, depth, 0⟩ : SplitState).scan ('$' :: rest) =
      (⟨statements, current ++ token.text, .normal, depth, 0⟩ : SplitState).scan rest' := by
  have hopening : dollarOpening rest = some (dollarDelimiter tag) := by
    rw [dollarOpening, dollarTag_ascii htag hascii, Option.map_some]
  have hlength : (dollarDelimiter tag).length = tag.length + 2 := by simp [dollarDelimiter]
  have hall : token.text ++ rest' = '$' :: rest := by
    rw [dollarBody_append h, dollarDelimiter, List.cons_append, List.cons_append, List.append_assoc,
      List.singleton_append, dollarTag_append htag]
  rw [dollarBody] at h
  split at h
  · cases h
  next n hn =>
  obtain ⟨htoken, hrest⟩ := Prod.mk.inj (Option.some.inj h)
  have hrest' : rest' = rest.drop (tag.length + 1 + n + (tag.length + 2)) := by
    rw [← hrest, List.drop_drop, hlength]
    exact congrArg (rest.drop ·) (by omega)
  have htext : token.text = '$' :: rest.take (tag.length + 1 + n + (tag.length + 2)) := by
    have happend : token.text ++ rest' = ('$' :: rest.take (tag.length + 1 + n + (tag.length + 2))) ++ rest' := by
      rw [hall, hrest', List.cons_append, List.take_append_drop]
    exact List.append_cancel_right happend
  have hstep : (⟨statements, current, .normal, depth, 0⟩ : SplitState).scanChar '$' rest =
      .ok ⟨statements, current ++ token.text, .normal, depth, tag.length + 1 + n + (tag.length + 2)⟩ := by
    have hbody : (⟨statements, current, .normal, depth, 0⟩ : SplitState).scanDollar (dollarDelimiter tag) rest =
        .ok ⟨statements, current ++ token.text, .normal, depth, tag.length + 1 + n + (tag.length + 2)⟩ := by
      have hskip : tag.length + 2 - 1 = tag.length + 1 := rfl
      simp only [scanDollar, hlength, hskip, hn, htext, push]
    rw [← hbody]
    simp [scanChar, scanNormal, hopening]
  rw [scan_cons rfl hstep, hrest']
  exact scan_skip ⟨statements, current ++ token.text, .normal, depth, tag.length + 1 + n + (tag.length + 2)⟩ _ rest

theorem isIdentCont_of_isIdentStart (h : isIdentStart c = true) : isIdentCont c = true := by
  rw [isIdentCont, isTagCont, h]
  rfl

theorem isIdentCont_of_isTagCont (h : isTagCont c = true) : isIdentCont c = true := by
  rw [isIdentCont, h]
  rfl

/-- The scan takes a plain token for what it is. -/
theorem scan_token {rest' : List Char} (h : nextToken k text = some (token, rest'))
    (hplain : plainToken token = true) :
    (⟨statements, current, .normal, depth, 0⟩ : SplitState).scan text =
      ((⟨statements, current, .normal, depth, 0⟩ : SplitState).afterToken token).scan rest' := by
  cases text with
  | nil => cases h
  | cons c tail =>
    rw [nextToken] at h
    split at h
    · -- a line comment
      next hopen =>
      cases h
      obtain ⟨rfl, htail⟩ := hopen
      obtain ⟨tail, rfl⟩ := List.head?_eq_some_iff.1 htail
      rw [scan_cons_cons rfl rfl, scan_lineComment]
      rfl
    next hdash =>
    split at h
    · -- a block comment
      next hopen =>
      obtain ⟨scanned, hscanned, heq⟩ := Option.map_eq_some_iff.1 h
      cases heq
      obtain ⟨rfl, htail⟩ := hopen
      obtain ⟨tail, rfl⟩ := List.head?_eq_some_iff.1 htail
      rw [scan_cons_cons rfl rfl]
      exact scan_blockComment hscanned
    next hslash =>
    split at h
    · next hquote =>
      split at h
      · -- an escape string that goes on
        obtain ⟨scanned, hscanned, heq⟩ := Option.map_eq_some_iff.1 h
        cases heq
        subst hquote
        have hpiece : escapesQuote scanned.1 = false := by
          simpa [plainToken, escapesQuote_cons] using hplain
        rw [scan_cons rfl rfl]
        refine (scan_escaped hscanned hpiece).trans ?_
        rw [push, List.append_assoc]
        rfl
      · -- a string
        obtain ⟨scanned, hscanned, heq⟩ := Option.map_eq_some_iff.1 h
        cases heq
        subst hquote
        rw [scan_cons rfl rfl]
        refine (scan_quoted (fun s hs c rest => ?_) hscanned).trans ?_
        · simp only [scanChar, hs]
        · rw [push, List.append_assoc]
          rfl
    next hquote =>
    split at h
    · -- an escape string with its letter
      next hopen =>
      obtain ⟨scanned, hscanned, heq⟩ := Option.map_eq_some_iff.1 h
      cases heq
      obtain ⟨hletter, htail⟩ := hopen
      obtain ⟨tail, rfl⟩ := List.head?_eq_some_iff.1 htail
      have hne (d : Char) (hd : 'e' ≠ d ∧ 'E' ≠ d) : c ≠ d := by
        rcases hletter with rfl | rfl
        · exact hd.1
        · exact hd.2
      have hpiece : escapesQuote scanned.1 = false := by
        simpa [plainToken, escapesQuote_cons (hne '\\' (by decide)), escapesQuote_cons] using hplain
      rw [scan_push hdash hslash hquote (hne _ (by decide)) (hne _ (by decide))
        (fun heq => absurd heq (hne _ (by decide))), scan_cons rfl rfl]
      refine (scan_escaped hscanned hpiece).trans ?_
      rw [push, List.append_assoc, List.append_assoc]
      rfl
    split at h
    · -- a quoted identifier
      next hdouble =>
      obtain ⟨scanned, hscanned, heq⟩ := Option.map_eq_some_iff.1 h
      cases heq
      subst hdouble
      rw [scan_cons rfl rfl]
      refine (scan_quoted (fun s hs c rest => ?_) hscanned).trans ?_
      · simp only [scanChar, hs]
      · rw [push, List.append_assoc]
        rfl
    next hdouble =>
    split at h
    · next hdollar =>
      subst hdollar
      split at h
      · next hnone =>
        cases h
        refine scan_push hdash hslash hquote hdouble (by decide) fun _ => ?_
        rw [dollarOpening, Option.map_eq_none_iff]
        by_contra hsome
        obtain ⟨tag, htag⟩ := Option.ne_none_iff_exists'.1 hsome
        rw [dollarTag_of_ascii htag] at hnone
        cases hnone
      · next tag htag =>
        have htoken : ∃ body, token = .dollarQuoted tag body := by
          rw [dollarBody] at h
          split at h
          · cases h
          · cases h
            exact ⟨_, rfl⟩
        obtain ⟨body, rfl⟩ := htoken
        exact scan_dollarBody htag hplain h
    next hdollar =>
    split at h
    · next hsemicolon =>
      cases h
      subst hsemicolon
      exact scan_cons rfl rfl
    next hsemicolon =>
    split at h
    · -- an identifier
      next hident =>
      cases h
      have hrun : ∀ d ∈ c :: tail.takeWhile isIdentCont, isIdentCont d = true := by
        intro d hd
        rcases List.mem_cons.1 hd with rfl | hd
        · exact isIdentCont_of_isIdentStart hident
        · exact List.mem_takeWhile_imp hd
      have hend : ∀ d, (tail.dropWhile isIdentCont).head? = some d → isIdentCont d = false := by
        intro d hd
        have := List.head?_dropWhile_not isIdentCont tail
        rw [hd] at this
        simpa using this
      have hopens : opensDollar (c :: tail.takeWhile isIdentCont) = false := by
        simpa [plainToken] using hplain
      have htail : c :: tail = (c :: tail.takeWhile isIdentCont) ++ tail.dropWhile isIdentCont := by
        rw [List.cons_append, List.takeWhile_append_dropWhile]
      rw [htail]
      exact scan_run hrun fun pre post hpost =>
        dollarOpening_append (dollarOpening_of_opensDollar hopens hpost) hend
    split at h
    · -- a number
      next hdigit =>
      cases h
      have hrun : ∀ d ∈ c :: tail.takeWhile isTagCont, isTagCont d = true := by
        intro d hd
        rcases List.mem_cons.1 hd with rfl | hd
        · rw [isTagCont, hdigit, Bool.or_true]
        · exact List.mem_takeWhile_imp hd
      have htail : c :: tail = (c :: tail.takeWhile isTagCont) ++ tail.dropWhile isTagCont := by
        rw [List.cons_append, List.takeWhile_append_dropWhile]
      rw [htail]
      refine scan_run (fun d hd => isIdentCont_of_isTagCont (hrun d hd)) fun pre post hpost => ?_
      have hdollar : isTagCont '$' = true := hrun '$' (by rw [hpost]; simp)
      cases hdollar
    · cases h
      exact scan_push hdash hslash hquote hdouble hsemicolon fun heq => absurd heq hdollar

theorem pushFirst_pushFirst (front text : List Char) (texts : List (List Char)) :
    pushFirst front (pushFirst text texts) = pushFirst (front ++ text) texts := by
  cases texts with
  | nil => rfl
  | cons head texts => simp only [pushFirst, List.modifyHead_cons, List.append_assoc]

theorem pushFirst_nil (texts : List (List Char)) : pushFirst [] texts = texts := by
  cases texts with
  | nil | cons => rfl

theorem plainScript_cons {tokens : List Token} (h : plainScript (token :: tokens) = true) :
    plainScript tokens = true ∧ (∀ text, token = .lineComment text → endsLine tokens = true) ∧
      plainToken token = true := by
  cases token with
  | lineComment text =>
    simp only [plainScript, Bool.and_eq_true] at h
    exact ⟨h.2, fun _ _ => h.1, rfl⟩
  | blockComment | string | escapeString | quotedIdentifier | dollarQuoted | identifier | number | semicolon | char =>
    simp only [plainScript, Bool.and_eq_true] at h
    exact ⟨h.2, nofun, h.1⟩

/-- A line ends with a newline, or with a carriage return and the rest of its end. -/
theorem endsLine_cons {tokens : List Token} (h : endsLine (token :: tokens) = true) :
    token = .char '\n' ∨ token = .char '\r' ∧ endsLine tokens = true := by
  cases tokens with
  | nil => exact .inl (by simpa [endsLine] using h)
  | cons next tokens =>
    simp only [endsLine, Bool.or_eq_true, Bool.and_eq_true, beq_iff_eq] at h
    refine h.imp_right fun h => ⟨h.1, ?_⟩
    cases tokens with
    | nil => simpa [endsLine] using h.2
    | cons => simp only [endsLine, h.2, beq_self_eq_true, Bool.true_or]

/-- What a token other than a comment and a semicolon leaves. -/
theorem afterToken_eq (s : SplitState) (tokens : List Token) (hsemicolon : token ≠ .semicolon)
    (hline : ∀ text, token ≠ .lineComment text) (hblock : ∀ text, token ≠ .blockComment text) :
    s.afterToken token = s.push token.text ∧
      uncommentedTexts false (token :: tokens) = pushFirst token.text (uncommentedTexts false tokens) := by
  cases token with
  | semicolon => exact absurd rfl hsemicolon
  | lineComment text => exact absurd rfl (hline text)
  | blockComment text => exact absurd rfl (hblock text)
  | string | escapeString | quotedIdentifier | dollarQuoted | identifier | number | char => exact ⟨rfl, rfl⟩

/-- A script may end in a line comment. -/
theorem scan_nil (afterComment : Bool) :
    (⟨statements, current, if afterComment then .lineComment else .normal, depth, 0⟩ : SplitState).scan [] =
      .ok (statements ++ pushFirst current (uncommentedTexts afterComment [])) := by
  cases afterComment with
  | false | true => simp [scan, finish, pushFirst, uncommentedTexts]

/-- The scan of a plain script gives the texts its tokens give. -/
theorem scan_lexFrom {fuel : ℕ} {tokens : List Token} (h : lexFrom fuel k text = some tokens)
    (hplain : plainScript tokens = true) (afterComment : Bool)
    (hend : afterComment = true → endsLine tokens = true) :
    (⟨statements, current, if afterComment then .lineComment else .normal, depth, 0⟩ : SplitState).scan text =
      .ok (statements ++ pushFirst current (uncommentedTexts afterComment tokens)) := by
  induction fuel generalizing k text tokens afterComment statements current depth with
  | zero =>
    cases text with
    | nil =>
      cases h
      exact scan_nil afterComment
    | cons => cases h
  | succ fuel ih =>
    cases text with
    | nil =>
      cases h
      exact scan_nil afterComment
    | cons c text =>
      obtain ⟨⟨token, rest⟩, hnext, hrest⟩ := Option.bind_eq_some_iff.1 h
      obtain ⟨tokens, htokens, rfl⟩ := Option.map_eq_some_iff.1 hrest
      obtain ⟨hplainRest, hline, htoken⟩ := plainScript_cons hplain
      cases afterComment with
      | true =>
        -- the comment ends here, or behind the carriage return that it takes along
        have htext := nextToken_append hnext
        rcases endsLine_cons (hend rfl) with rfl | ⟨rfl, hends⟩
        · obtain ⟨rfl, rfl⟩ := List.cons.inj htext
          refine (scan_cons rfl rfl).trans ((ih htokens hplainRest false (by simp)).trans ?_)
          exact congrArg (fun texts => Except.ok (statements ++ texts)) (pushFirst_pushFirst current ['\n'] _).symm
        · obtain ⟨rfl, rfl⟩ := List.cons.inj htext
          exact (scan_cons rfl rfl).trans (ih htokens hplainRest true fun _ => hends)
      | false =>
        refine (scan_token hnext htoken).trans ?_
        by_cases hsemicolon : token = .semicolon
        · subst hsemicolon
          refine (ih htokens hplainRest false (by simp)).trans ?_
          rw [pushFirst_nil, List.append_assoc]
          simp [uncommentedTexts, pushFirst]
        by_cases hlineComment : ∃ text, token = .lineComment text
        · obtain ⟨comment, rfl⟩ := hlineComment
          exact ih htokens hplainRest true fun _ => hline comment rfl
        by_cases hblockComment : ∃ text, token = .blockComment text
        · obtain ⟨comment, rfl⟩ := hblockComment
          refine (ih htokens hplainRest false (by simp)).trans ?_
          exact congrArg (fun texts => Except.ok (statements ++ texts)) (pushFirst_pushFirst current [' '] _).symm
        obtain ⟨hafter, htexts⟩ := afterToken_eq ⟨statements, current, .normal, depth, 0⟩ tokens hsemicolon
          (not_exists.1 hlineComment) (not_exists.1 hblockComment)
        rw [hafter, htexts, pushFirst_pushFirst]
        exact ih htokens hplainRest false (by simp)

end SplitState

/-! ## The whole script -/

/-- The tokens keep the whole script, and on a plain one the code cuts exactly at their semicolons, in order; what
stands between is unchanged but for its comments and the blanks around it. -/
theorem splitSqlStatements_of_plain {sql : List Char} {tokens : List Token} (h : lex sql = some tokens)
    (hplain : plainScript tokens = true) :
    tokens.flatMap Token.text = sql ∧
      splitSqlStatements sql = .ok (closeStatements (uncommentedTexts false tokens)) := by
  refine ⟨lex_append h, ?_⟩
  have hscan : SplitState.initial.scan sql = .ok (pushFirst [] (uncommentedTexts false tokens)) :=
    SplitState.scan_lexFrom h hplain false (by simp)
  rw [splitSqlStatements, hscan, SplitState.pushFirst_nil]
  rfl

/-- A function body, a default with a doubled quote, a column with a `$` and comments, one in another. -/
def sampleScript : List Char :=
  ("create function f() returns int as $body$ begin return 1; end $body$ language plpgsql;\n" ++
    "alter table \"a;b\" /* the /* old; */ column */ alter c$1 set default 'it''s; so'; -- done;\n").toList

theorem splitSqlStatements_of_plain_sample :
    ∃ tokens, lex sampleScript = some tokens ∧ tokens.flatMap Token.text = sampleScript ∧
      splitSqlStatements sampleScript = .ok (closeStatements (uncommentedTexts false tokens)) := by
  have hplain : (lex sampleScript).any plainScript = true := by decide +kernel
  obtain ⟨tokens, htokens, hplain⟩ := (Option.any_eq_true _ _).1 hplain
  exact ⟨tokens, htokens, splitSqlStatements_of_plain htokens hplain⟩

/-- A script that PostgreSQL's lexer accepts is cut exactly at its semicolons, with every text in between as it
stands. -/
def SplitsAtSemicolons (sql : List Char) : Prop :=
  ∀ tokens, lex sql = some tokens → splitSqlStatements sql = .ok (closeStatements (statementTexts tokens))

theorem not_splitsAtSemicolons_of_any {sql : List Char}
    (h : (lex sql).any (fun tokens => splitSqlStatements sql ≠ .ok (closeStatements (statementTexts tokens))) = true) :
    ¬ SplitsAtSemicolons sql := by
  intro hsplits
  obtain ⟨tokens, htokens, hne⟩ := (Option.any_eq_true _ _).1 h
  exact of_decide_eq_true hne (hsplits tokens htokens)

/-- A comment is taken out. On scripts that are not plain the cuts are wrong: the scan reads a quote behind a backslash
as the closing one, a delimiter inside an identifier as a dollar quote, one beyond ASCII as none, and a line comment
on behind a carriage return. -/
theorem not_splitsAtSemicolons :
    ¬ SplitsAtSemicolons "select 1 -- one".toList ∧
      ¬ SplitsAtSemicolons "select E'it\\'s; so'; select 2".toList ∧
      ¬ SplitsAtSemicolons "select a$b$c; select 2 as b$b$c".toList ∧
      ¬ SplitsAtSemicolons "do $ä$;$ä$; select 2".toList ∧
      ¬ SplitsAtSemicolons "select 1 -- one\r; select 2".toList := by
  refine ⟨?_, ?_, ?_, ?_, ?_⟩ <;> refine not_splitsAtSemicolons_of_any ?_
  · decide +kernel
  · decide +kernel
  · decide +kernel
  · decide +kernel
  · decide +kernel

end

end Kumiko
