/-
Expressions one after the other.

Several expressions may stand in one line, with blanks between them. `Entry` is a text that is read by itself, with the
blanks in front of it, and `Entry.join` puts entries together. To read the next expression is to read its text by
itself, moved along the line: what a token is depends on what follows it, but if a blank follows, or nothing, it stays
what it is, and nothing else of what follows is looked at.

Results:
- `skipBlanks_of_passes`: a reader does not see how many blanks are left in front of it.
- `token_framed`, `Reads.framed`: tokens, and so by induction on a derivation what is read of a text, stay the same
  where the text goes on behind a delimiter.
- `facing_expression`: one call reads the entry that the reader faces, and then it faces the next one.
- `facing_after`: so, by induction on the entries before it, every entry is faced in its turn.
- `calls_consecutive`: **consecutive expressions are read one after the other**.
-/
import ExactCalc.Proofs.Progress

namespace ExactCalc

/-! ## A text that goes on -/

namespace Cursor

variable {c d : Cursor} {behind : List Char}

/-- all blanks in front of the next token are passed -/
theorem skipBlanks_eq (c : Cursor) : c.skipBlanks =
    ⟨c.offset + Text.width (c.rest.takeWhile Text.isBlank), c.rest.dropWhile Text.isBlank⟩ := by
  obtain ⟨blanks, ⟨whole, offset⟩, blank⟩ := passes_skipBlanks c
  obtain ⟨taken, left⟩ := Lexeme.span_append blank fun x hx => not_isBlank_of_head?_skipBlanks hx
  rw [whole, taken, left, ← offset]

/-- from both sides of some blanks the same comes next -/
theorem skipBlanks_of_passes {blanks : List Char} (h : c.Passes blanks d)
    (blank : ∀ x ∈ blanks, Text.isBlank x = true) : c.skipBlanks = d.skipBlanks := by
  rw [skipBlanks_eq, skipBlanks_eq, h.1, h.2, List.takeWhile_append_of_pos blank, List.dropWhile_append_of_pos blank,
    Text.width_append, Nat.add_assoc]

/-- if there is more than blanks, the same blanks are passed where the text goes on -/
theorem skipBlanks_framed (n : ℕ) (solid : ∃ x ∈ c.rest, Text.isBlank x = false) :
    (c.framed n behind).skipBlanks = c.skipBlanks.framed n behind := by
  obtain ⟨taken, left⟩ : (c.rest ++ behind).takeWhile Text.isBlank = c.rest.takeWhile Text.isBlank ∧
      (c.rest ++ behind).dropWhile Text.isBlank = c.rest.dropWhile Text.isBlank ++ behind :=
    Lexeme.span_append_of_stop c.rest (.inl solid)
  rw [skipBlanks_eq, skipBlanks_eq, framed, taken, left, framed, Nat.add_right_comm]

theorem exists_solid_of_token (more : c.token.kind ≠ .endOfInput) : ∃ x ∈ c.rest, Text.isBlank x = false := by
  by_contra none
  push Not at none
  exact more (kind_token_eq_endOfInput_iff.2 fun x member => Bool.not_eq_false _ ▸ none x member)

/-- the next token stays what it is where the text goes on behind a delimiter -/
theorem token_framed (delimited : Lexeme.delimits behind = true) (n : ℕ) (more : c.token.kind ≠ .endOfInput) :
    (c.framed n behind).token = c.token.moved n ∧ (c.framed n behind).afterToken = c.afterToken.framed n behind := by
  have more' : c.skipBlanks.token.kind ≠ .endOfInput := by rwa [token_skipBlanks]
  rw [token, afterToken, skipBlanks_framed n (exists_solid_of_token more)]
  exact next_framed delimited n (exists_solid_of_token more')

end Cursor

/-- the stretch so many bytes further on -/
def Span.moved (n : ℕ) (s : Span) : Span :=
  ⟨s.offset + n, s.length⟩

theorem Span.moved_between (start stop n : ℕ) :
    (Span.between start stop).moved n = .between (start + n) (stop + n) := by
  rw [moved, between, between, Nat.add_sub_add_right]

theorem Token.stop_moved (n : ℕ) (t : Token) : (t.moved n).stop = t.stop + n :=
  Nat.add_right_comm _ _ _

namespace Expr

/-- what was read, so many bytes further on -/
def movedAlong (n : ℕ) (e : Located Expr) : Located Expr :=
  ⟨e.span.moved n, e.value.moved n⟩

/-- the next expression is the same from both sides of some blanks -/
theorem Reads.of_skipBlanks_eq {depth : ℕ} {c d next : Cursor} {e : Located Expr} (same : c.skipBlanks = d.skipBlanks)
    (h : Reads depth c e next) : Reads depth d e next := by
  have token : c.token = d.token := congrArg Cursor.peek same
  have afterToken : c.afterToken = d.afterToken := congrArg Cursor.advance same
  cases h with
  | atom atomic =>
    rw [token, afterToken]
    exact .atom (token ▸ atomic)
  | list opens elements =>
    rw [token, afterToken] at elements
    rw [token]
    exact .list (token ▸ opens) elements

section
variable {behind : List Char} (delimited : Lexeme.delimits behind = true) (n : ℕ)
include delimited

mutual

/-- what is read of a text stays the same where the text goes on behind a delimiter -/
theorem Reads.framed {depth : ℕ} {c next : Cursor} {e : Located Expr} : Reads depth c e next →
    Reads depth (c.framed n behind) (movedAlong n e) (next.framed n behind)
  | .atom atomic => by
    obtain ⟨token, afterToken⟩ := Cursor.token_framed delimited n (kind_ne_endOfInput_of_isAtomic atomic)
    have read : Reads depth (c.framed n behind) _ _ := .atom (token ▸ atomic)
    rwa [token, afterToken] at read
  | .list opens elements => by
    have more : c.token.kind ≠ .endOfInput := by simp [opens]
    obtain ⟨token, afterToken⟩ := Cursor.token_framed delimited n more
    have elements' := elements.framed
    rw [← token, ← afterToken] at elements'
    have read : Reads depth (c.framed n behind) _ _ := .list (token ▸ opens) elements'
    rwa [token, Token.moved, ← Span.moved_between, ← mapTokens_ofList] at read

theorem ReadsElements.framed {depth : ℕ} {opening : Token} {c next : Cursor} {es : List Expr} {stop : ℕ} :
    ReadsElements depth opening c es stop next →
      ReadsElements depth (opening.moved n) (c.framed n behind) (mapTokensList (Token.moved n) es) (stop + n)
        (next.framed n behind)
  | .close closes => by
    have more : c.token.kind ≠ .endOfInput := by simp [closes]
    obtain ⟨token, afterToken⟩ := Cursor.token_framed delimited n more
    have read : ReadsElements depth (opening.moved n) (c.framed n behind) _ _ _ := .close (token ▸ closes)
    rwa [token, afterToken, Token.stop_moved] at read
  | .cons starts room first others => by
    have more : c.token.kind ≠ .endOfInput := fun ended => not_starts (.inr (.inl ended)) starts
    obtain ⟨token, -⟩ := Cursor.token_framed delimited n more
    exact .cons (token ▸ starts) room first.framed others.framed

end

end

/-! ## Entries -/

/-- a text that is read by itself, and the blanks in front of it -/
structure Entry where
  gap : String
  text : String
  value : Located Expr
  blank : gap.toList.all Text.isBlank = true
  read : parse text = .ok value

namespace Entry

/-- the line of these entries, one after the other -/
def join (xs : List Entry) : String :=
  String.join (xs.map fun x => x.gap ++ x.text)

/-- there are blanks in front of every entry but the first one -/
def Apart (xs : List Entry) : Prop :=
  ∀ x ∈ xs.tail, x.gap ≠ ""

theorem join_cons (x : Entry) (xs : List Entry) : join (x :: xs) = x.gap ++ x.text ++ join xs :=
  String.toList_inj.1 (by simp [join, String.toList_join])

theorem toList_join_cons (x : Entry) (xs : List Entry) :
    (join (x :: xs)).toList = x.gap.toList ++ (x.text.toList ++ (join xs).toList) := by
  rw [join_cons, String.toList_append, String.toList_append, List.append_assoc]

theorem Apart.tail {x : Entry} {xs : List Entry} (h : Apart (x :: xs)) : Apart xs :=
  fun y member => h y (List.mem_of_mem_tail member)

theorem Apart.behind {before xs : List Entry} (h : Apart (before ++ xs)) : Apart xs := by
  induction before with
  | nil => exact h
  | cons x before ih => exact ih h.tail

/-- a name or a number may end in front of entries that have a gap in front of them -/
theorem Apart.delimits {x : Entry} {xs : List Entry} (h : Apart (x :: xs)) :
    Lexeme.delimits (join xs).toList = true := by
  cases xs with
  | nil => rfl
  | cons y ys =>
    have ne : y.gap.toList ≠ [] := mt String.toList_eq_nil_iff.1 (h y List.mem_cons_self)
    obtain ⟨b, bs, gap⟩ := List.exists_cons_of_ne_nil ne
    have blank : Text.isBlank b = true := List.all_eq_true.1 y.blank b (gap ▸ List.mem_cons_self)
    rw [toList_join_cons, gap]
    show Lexeme.isDelimiter b = true
    simp [Lexeme.isDelimiter, blank]

end Entry

/-! ## One call after the other -/

/-- the same comes next as at this position in front of these entries -/
def Facing (n : ℕ) (xs : List Entry) (c : Cursor) : Prop :=
  c.skipBlanks = (⟨n, (Entry.join xs).toList⟩ : Cursor).skipBlanks

/-- behind an expression that fills its text only the blanks at the end of the text are left of it -/
theorem skipBlanks_framed_of_ended {text : String} {next : Cursor} (reaches : (Cursor.start text).Reaches next)
    (ended : next.token.kind = .endOfInput) (n : ℕ) (behind : List Char) :
    (next.framed n behind).skipBlanks = (⟨n + text.utf8ByteSize, behind⟩ : Cursor).skipBlanks := by
  have total : next.offset + Text.width next.rest = text.utf8ByteSize := congrArg Token.offset reaches.ending_eq
  have passes : (next.framed n behind).Passes next.rest ⟨n + text.utf8ByteSize, behind⟩ := by
    refine ⟨rfl, ?_⟩
    rw [← total]
    exact (Nat.add_left_comm _ _ _).trans (Nat.add_assoc _ _ _).symm
  exact Cursor.skipBlanks_of_passes passes (Cursor.kind_token_eq_endOfInput_iff.1 ended)

/-- **One call reads the entry that the reader faces, and then the reader faces the next one.** -/
theorem facing_expression {n : ℕ} {x : Entry} {xs : List Entry} {c : Cursor} (apart : Entry.Apart (x :: xs))
    (facing : Facing n (x :: xs) c) :
    (expression c).result = .ok (movedAlong (n + x.gap.utf8ByteSize) x.value) ∧
      Facing (n + x.gap.utf8ByteSize + x.text.utf8ByteSize) xs (expression c).cursor := by
  obtain ⟨next, read, ended⟩ := parse_eq_ok_iff_reads.1 x.read
  have passes : (⟨n, (Entry.join (x :: xs)).toList⟩ : Cursor).Passes x.gap.toList
      ((Cursor.start x.text).framed (n + x.gap.utf8ByteSize) (Entry.join xs).toList) := by
    refine ⟨Entry.toList_join_cons x xs, ?_⟩
    rw [Text.width_toList]
    exact Nat.zero_add _
  have same := facing.trans (Cursor.skipBlanks_of_passes passes (List.all_eq_true.1 x.blank))
  have here := (read.framed apart.delimits (n + x.gap.utf8ByteSize)).of_skipBlanks_eq same.symm
  obtain ⟨result, cursor⟩ := Prod.mk.inj (reads_iff.1 here)
  refine ⟨result, ?_⟩
  rw [Facing, ← skipBlanks_framed_of_ended read.reaches ended]
  exact congrArg Cursor.skipBlanks cursor

/-- every entry is faced in its turn -/
theorem facing_after {n : ℕ} {before xs : List Entry} {c : Cursor} (apart : Entry.Apart (before ++ xs))
    (facing : Facing n (before ++ xs) c) :
    Facing (n + (Entry.join before).utf8ByteSize) xs (after c (List.replicate before.length .expression)) := by
  induction before generalizing n c with
  | nil => exact facing
  | cons x before ih =>
    obtain ⟨-, next⟩ := facing_expression apart facing
    have last := ih apart.tail next
    rw [List.length_cons, List.replicate_succ, after_cons, Entry.join_cons, String.utf8ByteSize_append,
      String.utf8ByteSize_append, ← Nat.add_assoc, ← Nat.add_assoc]
    exact last

/-- where no entry is left the line is finished -/
theorem finish_of_facing {n : ℕ} {c : Cursor} (facing : Facing n [] c) : (finish c).1 = .ok () := by
  have ended : (⟨n, []⟩ : Cursor).token.kind = .endOfInput :=
    Cursor.kind_token_eq_endOfInput_iff.2 (List.forall_mem_nil _)
  have same : c.token = (⟨n, []⟩ : Cursor).token := congrArg Cursor.peek facing
  exact finish_eq_ok_iff.2 (same ▸ ended)

/-- each call is made where the calls before it have left the cursor -/
theorem getElem?_stepwise (c : Cursor) (ss : List Step) (s : Step) (ss' : List Step) :
    (stepwise c (ss ++ s :: ss'))[ss.length]? = some (step (after c ss) s) := by
  induction ss generalizing c with
  | nil => rfl
  | cons s' ss ih => exact ih (step c s').2

/-- so many calls for an expression, and one that asks whether the line is finished -/
def calls (n : ℕ) : List Step :=
  List.replicate n .expression ++ [.finish]

theorem calls_add (i n : ℕ) : calls (i + (n + 1)) = List.replicate i .expression ++ .expression :: calls n := by
  rw [calls, calls, ← List.replicate_append_replicate, List.append_assoc, List.replicate_succ, List.cons_append]

theorem getElem?_stepwise_calls (c : Cursor) (i n : ℕ) :
    (stepwise c (calls (i + (n + 1))))[i]? = some (step (after c (List.replicate i .expression)) .expression) := by
  have here := getElem?_stepwise c (List.replicate i .expression) .expression (calls n)
  rwa [← calls_add, List.length_replicate] at here

theorem getElem?_stepwise_calls_last (c : Cursor) (n : ℕ) :
    (stepwise c (calls n))[n]? = some (step (after c (List.replicate n .expression)) .finish) := by
  have last := getElem?_stepwise c (List.replicate n .expression) .finish []
  rwa [List.length_replicate] at last

/-- **Consecutive expressions are read one after the other.** Let a line be put together from texts that are read by
themselves, with blanks between them. As many calls for an expression as there are texts give what each of the texts is
read as, moved along by the place of the text in the line, and then the line is finished. -/
theorem calls_consecutive (xs : List Entry) (apart : Entry.Apart xs) :
    let outcomes := (stepwise (Cursor.start (Entry.join xs)) (calls xs.length)).map Prod.fst
    (∀ before x behind, xs = before ++ x :: behind →
      outcomes[before.length]? =
        some (.expression (.ok (movedAlong (Entry.join before ++ x.gap).utf8ByteSize x.value)))) ∧
    outcomes[xs.length]? = some (.finish (.ok ())) := by
  intro outcomes
  have start : Facing 0 xs (Cursor.start (Entry.join xs)) := rfl
  refine ⟨?expressions, ?finish⟩
  case expressions =>
    rintro before x behind rfl
    obtain ⟨result, -⟩ := facing_expression apart.behind (facing_after apart start)
    rw [Nat.zero_add, ← String.utf8ByteSize_append] at result
    rw [List.getElem?_map, List.length_append, List.length_cons, getElem?_stepwise_calls, Option.map_some, step,
      result]
  case finish =>
    have apart' : Entry.Apart (xs ++ []) := by rwa [List.append_nil]
    have start' : Facing 0 (xs ++ []) (Cursor.start (Entry.join xs)) := by rwa [List.append_nil]
    have done := finish_of_facing (facing_after apart' start')
    rw [List.getElem?_map, getElem?_stepwise_calls_last, Option.map_some, step, done]

/-- a sign and a digit with a blank of three bytes between them, and a call that has a blank of its own -/
theorem calls_consecutive_signs :
    let sign : Entry := ⟨"", "-", ⟨⟨0, 1⟩, .atom ⟨.operator, 0, "-"⟩⟩, by decide, by decide +kernel⟩
    let digit : Entry := ⟨"\u3000", "1", ⟨⟨0, 1⟩, .atom ⟨.constant, 0, "1"⟩⟩, by decide, by decide +kernel⟩
    let call : Entry := ⟨"\t", " (x)", ⟨⟨1, 3⟩, .list [.atom ⟨.identifier, 2, "x"⟩]⟩, by decide, by decide +kernel⟩
    let outcomes := (stepwise (Cursor.start (Entry.join [sign, digit, call])) (calls 3)).map Prod.fst
    Entry.Apart [sign, digit, call] ∧ Entry.join [sign, digit, call] = "-\u30001\t (x)" ∧
      outcomes[1]? = some (.expression (.ok ⟨⟨4, 1⟩, .atom ⟨.constant, 4, "1"⟩⟩)) ∧
      outcomes[2]? = some (.expression (.ok ⟨⟨7, 3⟩, .list [.atom ⟨.identifier, 8, "x"⟩]⟩)) ∧
      outcomes[3]? = some (.finish (.ok ())) := by
  intro sign digit call outcomes
  have apart : Entry.Apart [sign, digit, call] := by unfold Entry.Apart; decide
  obtain ⟨read, finished⟩ := calls_consecutive [sign, digit, call] apart
  exact ⟨apart, by decide +kernel, read [sign] digit [call] rfl, read [sign, digit] call [] rfl, finished⟩

end Expr

end ExactCalc
