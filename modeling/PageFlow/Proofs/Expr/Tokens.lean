import PageFlow.Proofs.Expr.Longest

namespace PageFlow

variable {source : List Char}

namespace Token

def stop (t : Token) : Nat :=
  t.position + t.length

def span (source : List Char) (t : Token) : List Char :=
  (source.drop t.position).take t.length

/-- The token is the longest that starts where it does. -/
structure Reads (source : List Char) (t : Token) : Prop where
  length_pos : 0 < t.length
  stop_le : t.stop ≤ source.length
  spelled : Spells t.kind (t.span source) t.value.toList
  longest : Longest (t.span source) (source.drop t.position)

end Token

/-- The tokens `ts` stand between two places of a source, with nothing but blanks around them. -/
structure Tiles (source : List Char) (start stop : Nat) (ts : List Token) : Prop where
  le : start ≤ stop
  reads : ∀ t ∈ ts, t.Reads source
  inside : ∀ t ∈ ts, start ≤ t.position ∧ t.stop ≤ stop
  ordered : ts.Pairwise fun t u => t.stop ≤ u.position
  blank : ∀ {i : Nat} {c : Char}, start ≤ i → i < stop → source[i]? = some c →
    (∀ t ∈ ts, ¬ (t.position ≤ i ∧ i < t.stop)) → Text.isBlank c

/-- No token starts at the place of a flaw, for the reason that the flaw gives. -/
def Stuck (source : List Char) (flaw : Flaw) : Prop :=
  ∃ c rest, source.drop flaw.offset = c :: rest ∧ ¬ Text.isBlank c ∧ Unspelled (c :: rest) ∧
    Lexeme.Stops c flaw.fault

theorem Tiles.cons {start stop : Nat} {t : Token} {ts : List Token} (ht : t.Reads source)
    (hblank : Tiles source start t.position []) (h : Tiles source t.stop stop ts) :
    Tiles source start stop (t :: ts) := by
  have hpos : t.position ≤ t.stop := Nat.le_add_right _ _
  have hstart := hblank.le
  have hstop := h.le
  constructor
  case le => omega
  case reads => exact List.forall_mem_cons.2 ⟨ht, h.reads⟩
  case inside =>
    refine List.forall_mem_cons.2 ⟨⟨hstart, hstop⟩, fun u hu => ?_⟩
    have := h.inside u hu
    exact ⟨by omega, this.2⟩
  case ordered => exact List.pairwise_cons.2 ⟨fun u hu => (h.inside u hu).1, h.ordered⟩
  case blank =>
    intro i c hi hlt hc hout
    obtain ⟨hnot, hout⟩ := List.forall_mem_cons.1 hout
    by_cases hbefore : i < t.position
    · exact hblank.blank hi hbefore hc (by simp)
    · exact h.blank (by omega) hlt hc hout

structure Cursor.On (source : List Char) (c : Cursor) : Prop where
  rest_eq : c.rest = source.drop c.position
  position_le : c.position ≤ source.length

namespace Cursor

variable {c : Cursor}

theorem on_start (source : String) : (start source).On source.toList :=
  ⟨rfl, Nat.zero_le _⟩

theorem On.advance (h : c.On source) {count : Nat} (hcount : count ≤ c.rest.length) :
    (c.advance count).On source := by
  constructor
  · rw [Cursor.advance, h.rest_eq, List.drop_drop]
  · rw [h.rest_eq, List.length_drop] at hcount
    have := h.position_le
    simp only [Cursor.advance]
    omega

theorem skipBlank_rest (c : Cursor) : c.skipBlank.rest = c.rest.dropWhile Text.isBlank := by
  have happend := List.takeWhile_append_dropWhile (p := Text.isBlank) (l := c.rest)
  calc c.rest.drop (c.rest.takeWhile Text.isBlank).length
    _ = (c.rest.takeWhile Text.isBlank ++ c.rest.dropWhile Text.isBlank).drop
          (c.rest.takeWhile Text.isBlank).length := by rw [happend]
    _ = c.rest.dropWhile Text.isBlank := List.drop_left

theorem not_isBlank_of_skipBlank {first : Char} {rest : List Char}
    (h : c.skipBlank.rest = first :: rest) : ¬ Text.isBlank first := by
  have hhead := fails_after_run Text.isBlank c.rest
  rw [← skipBlank_rest, h] at hhead
  exact hhead first rfl

theorem On.skipBlank (h : c.On source) : c.skipBlank.On source :=
  h.advance (List.takeWhile_sublist _).length_le

theorem On.tiles_skipBlank (h : c.On source) :
    Tiles source c.position c.skipBlank.position [] := by
  constructor
  case le => exact Nat.le_add_right _ _
  case reads | inside => simp
  case ordered => exact .nil
  case blank =>
    intro i d hi hlt hd _
    obtain ⟨j, rfl⟩ := Nat.exists_eq_add_of_le hi
    rw [← List.getElem?_drop, ← h.rest_eq] at hd
    have hj : j < (c.rest.takeWhile Text.isBlank).length := by
      simp only [Cursor.skipBlank, Cursor.advance] at hlt
      omega
    have hmem : (c.rest.takeWhile Text.isBlank)[j]? = some d := by
      rw [← hd]
      exact (List.prefix_iff_getElem?.1 (List.takeWhile_prefix _) j hj).symm ▸
        List.getElem?_eq_getElem hj
    exact List.mem_takeWhile_imp (List.mem_of_getElem? hmem)

theorem On.advance_of_fits (h : c.On source) {l : Lexeme} (hl : l.Fits c.rest) :
    (c.advance l.length).On source := by
  obtain ⟨text, hlength, -, hlongest⟩ := hl
  apply h.advance
  rw [← hlength]
  exact hlongest.isPrefix.length_le

theorem On.reads_of_fits (h : c.On source) {l : Lexeme} (hl : l.Fits c.rest) :
    Token.Reads source ⟨l.kind, String.ofList l.value, c.position, l.length⟩ := by
  obtain ⟨text, hlength, hspells, hlongest⟩ := hl
  have hspan : (c.rest).take l.length = text := by
    rw [← hlength]
    exact (List.prefix_iff_eq_take.1 hlongest.isPrefix).symm
  have hafter := h.advance_of_fits ⟨text, hlength, hspells, hlongest⟩
  rw [h.rest_eq] at hspan hlongest
  constructor
  case length_pos => exact l.length_pos
  case stop_le => exact hafter.position_le
  case spelled => rwa [Token.span, hspan, String.toList_ofList]
  case longest => rwa [Token.span, hspan]

theorem On.next_ok (h : c.On source) {t : Token} {after : Cursor} (hn : c.next = (.ok t, after)) :
    Tiles source c.position t.position [] ∧
      (t = ⟨.eof, "", source.length, 0⟩ ∨
        t.kind ≠ .eof ∧ t.Reads source ∧ after.On source ∧ after.position = t.stop) := by
  have hhere := h.skipBlank
  simp only [next] at hn
  split at hn
  · next hnil =>
    cases hn
    refine ⟨h.tiles_skipBlank, .inl ?_⟩
    rw [hhere.rest_eq, List.drop_eq_nil_iff] at hnil
    rw [Nat.le_antisymm hhere.position_le hnil]
  · next first rest hrest =>
    split at hn
    · next l hread =>
      cases hn
      have hfits : l.Fits c.skipBlank.rest := hrest ▸ Lexeme.read_fits hread
      have hreads := hhere.reads_of_fits hfits
      exact ⟨h.tiles_skipBlank,
        .inr ⟨hreads.spelled.kind_ne_eof, hreads, hhere.advance_of_fits hfits, rfl⟩⟩
    · cases hn
    · cases hn

theorem On.next_error (h : c.On source) {flaw : Flaw} {after : Cursor}
    (hn : c.next = (.error flaw, after)) :
    Tiles source c.position flaw.offset [] ∧ Stuck source flaw := by
  have hhere := h.skipBlank
  simp only [next] at hn
  split at hn
  · cases hn
  · next first rest hrest =>
    have hstuck {fault : ExprFault} (hread : Lexeme.read first rest = .error fault) :
        Stuck source ⟨fault, c.skipBlank.position⟩ := by
      obtain ⟨hun, hstops⟩ := Lexeme.read_unspelled hread
      exact ⟨first, rest, by rw [← hrest, hhere.rest_eq],
        not_isBlank_of_skipBlank hrest, hun, hstops⟩
    split at hn
    · cases hn
    · next hread =>
      cases hn
      exact ⟨h.tiles_skipBlank, hstuck hread⟩
    · next hread =>
      cases hn
      exact ⟨h.tiles_skipBlank, hstuck hread⟩

inductive Reading (source : List Char) (start : Nat) : Except Flaw (List Token) → Prop
  | ok {ts : List Token} (h : Tiles source start source.length ts) (hk : ∀ t ∈ ts, t.kind ≠ .eof) :
    Reading source start (.ok (ts ++ [⟨.eof, "", source.length, 0⟩]))
  | error {ts : List Token} {flaw : Flaw} (h : Tiles source start flaw.offset ts)
    (hs : Stuck source flaw) : Reading source start (.error flaw)

theorem On.reading (h : c.On source) : Reading source c.position c.tokens := by
  fun_induction tokens c with
  | case1 c flaw after hn =>
    obtain ⟨htiles, hstuck⟩ := h.next_error hn
    exact .error htiles hstuck
  | case2 c t after hn ht =>
    obtain ⟨htiles, rfl | ⟨hk, -⟩⟩ := h.next_ok hn
    · exact .ok htiles (by simp)
    · exact absurd ht hk
  | case3 c t after hn ht ih =>
    obtain ⟨htiles, rfl | ⟨-, hreads, hafter, hpos⟩⟩ := h.next_ok hn
    · exact absurd rfl ht
    have hrest := ih hafter
    rw [hpos] at hrest
    generalize after.tokens = result at hrest
    cases hrest with
    | ok hts hk => exact .ok (.cons hreads htiles hts) (List.forall_mem_cons.2 ⟨ht, hk⟩)
    | error hts hstuck => exact .error (.cons hreads htiles hts) hstuck

end Cursor

theorem tiles_of_tokenize {source : String} {ts : List Token} (h : tokenize source = .ok ts) :
    ∃ inits, ts = inits ++ [⟨.eof, "", source.length, 0⟩] ∧ (∀ t ∈ inits, t.kind ≠ .eof) ∧
      Tiles source.toList 0 source.length inits := by
  have hreading := (Cursor.on_start source).reading
  rw [tokenize] at h
  generalize (Cursor.start source).tokens = result at h hreading
  cases hreading with
  | ok htiles hk =>
    cases h
    exact ⟨_, rfl, hk, htiles⟩
  | error htiles hs => cases h

theorem stuck_of_tokenize {source : String} {e : ExprError} (h : tokenize source = .error e) :
    e.source = source ∧
      ∃ inits, Tiles source.toList 0 e.offset inits ∧ Stuck source.toList e.toFlaw := by
  have hreading := (Cursor.on_start source).reading
  rw [tokenize] at h
  generalize (Cursor.start source).tokens = result at h hreading
  cases hreading with
  | ok htiles hk => cases h
  | error htiles hs =>
    cases h
    exact ⟨rfl, _, htiles, hs⟩

/--
The tokens of a source tile it, with one `eof` at its end; where there are none, tokens tile it up
to the place of the error, and there no token starts.
-/
theorem tokenize_tiles (source : String) :
    match tokenize source with
    | .ok ts => ∃ inits, ts = inits ++ [⟨.eof, "", source.length, 0⟩] ∧
        (∀ t ∈ inits, t.kind ≠ .eof) ∧ Tiles source.toList 0 source.length inits
    | .error e => e.source = source ∧
        ∃ inits, Tiles source.toList 0 e.offset inits ∧ Stuck source.toList e.toFlaw := by
  cases h : tokenize source with
  | ok ts => exact tiles_of_tokenize h
  | error e => exact stuck_of_tokenize h

end PageFlow
