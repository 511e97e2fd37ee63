import PageFlow.Proofs.Expr.Spacing
import PageFlow.Proofs.Expr.Tokens

namespace PageFlow

namespace Cursor

variable {c d : Cursor}

def after (c : Cursor) : Nat → Cursor
  | 0 => c
  | n + 1 => c.next.2.after n

/-- Asking for the next token gives an answer and moves nothing. -/
def Rests (c : Cursor) (answer : Except Flaw Token) : Prop :=
  c.next = (answer, c)

theorem Rests.pull {answer : Except Flaw Token} (h : c.Rests answer) (n : Nat) :
    c.pull n = List.replicate n answer := by
  induction n with
  | zero => rfl
  | succ n ih => rw [Cursor.pull, h, ih, List.replicate_succ]

theorem Rests.after {answer : Except Flaw Token} (h : c.Rests answer) (n : Nat) :
    c.after n = c := by
  induction n with
  | zero => rfl
  | succ n ih => rw [Cursor.after, h, ih]

theorem skipBlank_skipBlank (c : Cursor) : c.skipBlank.skipBlank = c.skipBlank := by
  have hnone : c.skipBlank.rest.takeWhile Text.isBlank = [] := by
    cases hrest : c.skipBlank.rest with
    | nil => rfl
    | cons first rest => exact List.takeWhile_cons_of_neg (not_isBlank_of_skipBlank hrest)
  rw [skipBlank, hnone]
  rfl

theorem next_skipBlank (c : Cursor) : c.skipBlank.next = c.next := by
  rw [next, next, skipBlank_skipBlank]

theorem rests_skipBlank {answer : Except Flaw Token} (h : c.next = (answer, c.skipBlank)) :
    c.skipBlank.Rests answer := by
  rw [Rests, next_skipBlank, h]

theorem next_eof {t : Token} (h : c.next = (.ok t, d)) (ht : t.kind = .eof) : d = c.skipBlank := by
  rw [next] at h
  split at h
  · cases h
    rfl
  next first rest hrest =>
  split at h
  · next l hread =>
    cases h
    obtain ⟨text, -, hspells, -⟩ := Lexeme.read_fits hread
    exact absurd ht hspells.kind_ne_eof
  · cases h
  · cases h

theorem next_error {flaw : Flaw} (h : c.next = (.error flaw, d)) :
    flaw.offset = c.skipBlank.position ∧
      ((∃ x, flaw.fault = .unexpectedCharacter x ∧ c.skipBlank.rest.head? = some x ∧
          d = c.skipBlank) ∨
        (flaw.fault = .unterminatedString ∨ flaw.fault = .unterminatedEscape) ∧
          d = c.skipBlank.finish) := by
  rw [next] at h
  split at h
  · cases h
  next first rest hrest =>
  have hstops {fault : ExprFault} (hread : Lexeme.read first rest = .error fault) :
      (fault = .unterminatedString ∨ fault = .unterminatedEscape) ∨
        fault = .unexpectedCharacter first := by
    obtain ⟨-, hstops⟩ := Lexeme.read_unspelled hread
    rw [Lexeme.Stops] at hstops
    split at hstops
    · exact .inl hstops
    · exact .inr hstops
  split at h
  · cases h
  · next x hread =>
    cases h
    obtain (hfault | hfault) | hfault := hstops hread
    · cases hfault
    · cases hfault
    · cases hfault
      exact ⟨rfl, .inl ⟨first, rfl, by rw [hrest]; rfl, rfl⟩⟩
  · next fault hfault hread =>
    cases h
    exact ⟨rfl, .inr ⟨(hstops hread).resolve_right (hfault first), rfl⟩⟩

theorem On.eq_end {source : List Char} (h : c.On source) (hnil : c.rest = []) :
    c = ⟨source.length, []⟩ := by
  have hrest := h.rest_eq
  rw [hnil] at hrest
  have hposition := Nat.le_antisymm h.position_le (List.drop_eq_nil_iff.1 hrest.symm)
  exact congrArg₂ Cursor.mk hposition hnil

theorem take_pull (c : Cursor) (n more : Nat) : (c.pull (n + more)).take n = c.pull n := by
  induction n generalizing c with
  | zero => rfl
  | succ n ih => rw [Nat.add_right_comm, pull, List.take_succ_cons, ih, pull]

/-- Tokens that are pulled one after another, none of them the end, and the cursor behind them. -/
inductive Yields : Cursor → List Token → Cursor → Prop
  | nil (c : Cursor) : Yields c [] c
  | cons {c d e : Cursor} {t : Token} {ts : List Token} (head : c.next = (.ok t, d))
    (going : t.kind ≠ .eof) (tail : Yields d ts e) : Yields c (t :: ts) e

namespace Yields

variable {ts : List Token}

theorem pull (h : Yields c ts d) (n : Nat) :
    c.pull (ts.length + n) = ts.map .ok ++ d.pull n := by
  induction h with
  | nil c => simp
  | cons head going tail ih =>
    rw [List.length_cons, Nat.add_right_comm, Cursor.pull, head, ih]
    rfl

theorem after (h : Yields c ts d) (n : Nat) : c.after (ts.length + n) = d.after n := by
  induction h with
  | nil c => simp
  | cons head going tail ih => rw [List.length_cons, Nat.add_right_comm, Cursor.after, head, ih]

theorem kind_ne_eof (h : Yields c ts d) : ∀ t ∈ ts, t.kind ≠ .eof := by
  induction h with
  | nil c => simp
  | cons head going tail ih => exact List.forall_mem_cons.2 ⟨going, ih⟩

theorem on {source : List Char} (h : Yields c ts d) (hc : c.On source) : d.On source := by
  induction h with
  | nil c => exact hc
  | cons head going tail ih =>
    obtain ⟨-, rfl | ⟨-, -, hafter, -⟩⟩ := hc.next_ok head
    · exact absurd rfl going
    · exact ih hafter

theorem tiles {source : List Char} {stop : Nat} (h : Yields c ts d) (hc : c.On source)
    (hd : Tiles source d.position stop []) : Tiles source c.position stop ts := by
  induction h with
  | nil c => exact hd
  | cons head going tail ih =>
    obtain ⟨hblank, rfl | ⟨-, hreads, hafter, hpos⟩⟩ := hc.next_ok head
    · exact absurd rfl going
    · exact .cons hreads hblank (hpos ▸ ih hafter hd)

end Yields

/-- The tokens of the rest are pulled one after another, up to what ends them. -/
theorem exists_yields (c : Cursor) :
    (∃ ts t d e, c.tokens = .ok (ts ++ [t]) ∧ Yields c ts d ∧ t.kind = .eof ∧
        d.next = (.ok t, e)) ∨
      ∃ ts flaw d e, c.tokens = .error flaw ∧ Yields c ts d ∧ d.next = (.error flaw, e) := by
  fun_induction tokens c with
  | case1 c flaw e hn => exact .inr ⟨[], flaw, c, e, rfl, .nil c, hn⟩
  | case2 c t e hn ht => exact .inl ⟨[], t, c, e, rfl, .nil c, ht, hn⟩
  | case3 c t next hn ht ih =>
    rcases ih with ⟨ts, last, d, e, htokens, hyields, hlast, hd⟩ |
      ⟨ts, flaw, d, e, htokens, hyields, hd⟩
    · rw [htokens]
      exact .inl ⟨t :: ts, last, d, e, rfl, .cons hn ht hyields, hlast, hd⟩
    · rw [htokens]
      exact .inr ⟨t :: ts, flaw, d, e, rfl, .cons hn ht hyields, hd⟩

theorem Yields.pull_rests {ts : List Token} {e : Cursor} {answer last : Except Flaw Token}
    (h : Yields c ts d) (hd : d.next = (answer, e)) (he : e.Rests last) (n : Nat) :
    c.pull n = (ts.map Except.ok ++ answer :: List.replicate n last).take n := by
  have hlong : c.pull (ts.length + (n + 1)) =
      ts.map Except.ok ++ answer :: List.replicate n last := by
    rw [h.pull, Cursor.pull, hd, he.pull]
  rw [← hlong, ← take_pull c n (ts.length + 1)]
  congr 2
  omega

end Cursor

def Token.endOf (source : String) : Token :=
  ⟨.eof, "", source.length, 0⟩

def answerIn (source : String) (answer : Except Flaw Token) : Except ExprError Token :=
  answer.mapError (·.within source)

def pulled (source : String) (n : Nat) : List (Except ExprError Token) :=
  ((Cursor.start source).pull n).map (answerIn source)

/--
What is pulled from a source whose tokens end in an error: tokens up to the place of the error, the
error, and `last` for good. An unexpected character is not consumed, and a string that does not end
takes all that is left.
-/
structure Falters (source : String) (e : ExprError) (ts : List Token)
    (last : Except ExprError Token) : Prop where
  kinds : ∀ t ∈ ts, t.kind ≠ .eof
  tiles : Tiles source.toList 0 e.offset ts
  pulled : ∀ n, pulled source n =
    (ts.map Except.ok ++ Except.error e :: List.replicate n last).take n
  rests : (∃ c, e.fault = .unexpectedCharacter c ∧ last = .error e ∧
      source.toList[e.offset]? = some c ∧ ∀ n, (Cursor.start source).after (ts.length + (n + 1)) =
        ⟨e.offset, source.toList.drop e.offset⟩) ∨
    (e.fault = .unterminatedString ∨ e.fault = .unterminatedEscape) ∧
      last = .ok (.endOf source) ∧
      ∀ n, (Cursor.start source).after (ts.length + (n + 1)) = ⟨source.length, []⟩

theorem Cursor.Yields.pulled_rests {source : String} {ts : List Token} {d e : Cursor}
    {answer last : Except Flaw Token} (h : Yields (start source) ts d) (hd : d.next = (answer, e))
    (he : e.Rests last) (n : Nat) : pulled source n =
      (ts.map Except.ok ++ answerIn source answer ::
        List.replicate n (answerIn source last)).take n := by
  rw [pulled, h.pull_rests hd he, List.map_take, List.map_append, List.map_map, List.map_cons,
    List.map_replicate]
  rfl

theorem pulled_of_tokenize {source : String} {ts : List Token} (h : tokenize source = .ok ts) :
    ts.getLast? = some (.endOf source) ∧ ∀ n, pulled source n =
      (ts.map Except.ok ++ List.replicate n (Except.ok (Token.endOf source))).take n := by
  have hstart := Cursor.on_start source
  rcases (Cursor.start source).exists_yields with ⟨inits, t, d, e, htokens, hyields, ht, hd⟩ |
    ⟨inits, flaw, d, e, htokens, -, -⟩
  · rw [tokenize, htokens] at h
    cases h
    obtain ⟨-, rfl | ⟨hk, -⟩⟩ := (hyields.on hstart).next_ok hd
    · refine ⟨List.getLast?_concat, fun n => ?_⟩
      cases Cursor.next_eof hd rfl
      rw [hyields.pulled_rests hd (Cursor.rests_skipBlank hd) n, List.map_append,
        List.append_assoc]
      rfl
    · exact absurd ht hk
  · rw [tokenize, htokens] at h
    cases h

theorem falters_of_tokenize {source : String} {e : ExprError} (h : tokenize source = .error e) :
    ∃ ts last, Falters source e ts last := by
  have hstart := Cursor.on_start source
  rcases (Cursor.start source).exists_yields with ⟨ts, t, d, d', htokens, -, -, -⟩ |
    ⟨ts, flaw, d, d', htokens, hyields, hd⟩
  · rw [tokenize, htokens] at h
    cases h
  rw [tokenize, htokens] at h
  cases h
  have hon := hyields.on hstart
  obtain ⟨hblank, -⟩ := hon.next_error hd
  have htiles := hyields.tiles hstart hblank
  have hafter : ∀ n, (Cursor.start source).after (ts.length + (n + 1)) = d'.after n := by
    intro n
    rw [hyields.after, Cursor.after, hd]
  obtain ⟨hoffset, ⟨c, hfault, hhead, rfl⟩ | ⟨hfault, rfl⟩⟩ := Cursor.next_error hd
  · have hrests := Cursor.rests_skipBlank hd
    have hrest := hon.skipBlank.rest_eq
    rw [← hoffset] at hrest
    rw [hrest, List.head?_drop] at hhead
    refine ⟨ts, .error (flaw.within source), hyields.kind_ne_eof, htiles,
      hyields.pulled_rests hd hrests, .inl ⟨c, hfault, rfl, hhead, fun n => ?_⟩⟩
    rw [hafter, hrests.after]
    exact congrArg₂ Cursor.mk hoffset.symm hrest
  · have hnil : d.skipBlank.finish.rest = [] := List.drop_length
    have hend := (hon.skipBlank.advance (Nat.le_refl _)).eq_end hnil
    have hrests : d.skipBlank.finish.Rests (.ok (.endOf source)) := by
      rw [Cursor.finish, hend]
      rfl
    refine ⟨ts, .ok (.endOf source), hyields.kind_ne_eof, htiles,
      hyields.pulled_rests hd hrests, .inr ⟨hfault, rfl, fun n => ?_⟩⟩
    rw [hafter, hrests.after]
    exact hend

/-- A token is at least one character of what was left. -/
theorem Cursor.next_position_lt {c d : Cursor} {t : Token} (h : c.next = (.ok t, d))
    (ht : t.kind ≠ .eof) : c.position < d.position := by
  rw [next] at h
  split at h
  · cases h
    exact absurd rfl ht
  next first rest hrest =>
  split at h
  · next l hread =>
    cases h
    have hpos := l.length_pos
    simp only [advance, skipBlank]
    omega
  · cases h
  · cases h

theorem Cursor.after_succ (c : Cursor) (n : Nat) : c.after (n + 1) = (c.after n).next.2 := by
  induction n generalizing c with
  | zero => rfl
  | succ n ih => rw [after, ih, after]

theorem Cursor.getElem?_pull (c : Cursor) {k n : Nat} (h : k < n) :
    (c.pull n)[k]? = some (c.after k).next.1 := by
  induction n generalizing c k with
  | zero => cases h
  | succ n ih =>
    cases k with
    | zero => rfl
    | succ k => exact ih _ (Nat.lt_of_succ_lt_succ h)

/--
Pulling one token after another gives the tokens of the source and then its end for good, or where
the tokens end in an error, tokens up to its place, the error, and then the error for good if no
token starts there and the end for good if a string does not end. Each token takes characters.
-/
theorem pulled_agrees (source : String) :
    (match tokenize source with
      | .ok ts => ts.getLast? = some (.endOf source) ∧ ∀ n, pulled source n =
          (ts.map Except.ok ++ List.replicate n (Except.ok (Token.endOf source))).take n
      | .error e => ∃ ts last, Falters source e ts last) ∧
    ∀ (k n : Nat) (t : Token), k < n → (pulled source n)[k]? = some (.ok t) → t.kind ≠ .eof →
      ((Cursor.start source).after k).position <
        ((Cursor.start source).after (k + 1)).position := by
  constructor
  · cases h : tokenize source with
    | ok ts => exact pulled_of_tokenize h
    | error e => exact falters_of_tokenize h
  · intro k n t hk ht hkind
    rw [pulled, List.getElem?_map, Cursor.getElem?_pull _ hk] at ht
    rw [Cursor.after_succ]
    generalize hn : ((Cursor.start source).after k).next = next at ht
    obtain ⟨answer, d⟩ := next
    cases answer with
    | error flaw => cases ht
    | ok u =>
      cases ht
      exact Cursor.next_position_lt hn hkind

end PageFlow
