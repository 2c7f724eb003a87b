import Takoserver.Migrations.Scanner

/-!
# Framing

The slices that the pass returns are adjacent pieces of the text from its start on, and
what is left holds nothing to execute.
-/

namespace Takoserver.Migrations

/-! ### Tokens are pieces of the text -/

theorem blockComment_append {text body rest : Units} (h : blockComment text = some (body, rest)) :
    body ++ rest = text ∧ ∃ inner, body = inner ++ [0x2a, 0x2f] ∧ ¬[0x2a, 0x2f] <:+: inner := by
  induction text using blockComment.induct generalizing body with
  | case1 => cases h
  | case2 => cases h
  | case3 _ _ _ hclose =>
    rw [blockComment, if_pos hclose] at h
    cases h
    obtain ⟨rfl, rfl⟩ := hclose
    exact ⟨rfl, [], rfl, by simp⟩
  | case4 c _ _ hopen ih =>
    rw [blockComment, if_neg hopen, Option.map_eq_some_iff] at h
    obtain ⟨⟨_, _⟩, h, heq⟩ := h
    cases heq
    obtain ⟨happend, inner, rfl, hinner⟩ := ih h
    refine ⟨by rw [List.cons_append, happend], c :: inner, rfl, ?_⟩
    rw [List.infix_cons_iff]
    rintro (hopening | hinfix)
    · -- the comment would have ended before
      rw [List.cons_prefix_cons] at hopening
      obtain ⟨rfl, hopening⟩ := hopening
      cases inner with
      | nil => simp at hopening
      | cons =>
        rw [List.cons_prefix_cons] at hopening
        rw [List.cons_append, List.cons_append, List.cons.injEq] at happend
        exact hopen ⟨rfl, happend.1 ▸ hopening.1.symm⟩
    · exact hinner hinfix

theorem lineComment_append (text : Units) :
    (lineComment text).1 ++ (lineComment text).2 = text ∧
      ((∃ body, (lineComment text).1 = body ++ [0x0a] ∧ 0x0a ∉ body) ∨
        ((lineComment text).2 = [] ∧ 0x0a ∉ (lineComment text).1)) := by
  induction text with
  | nil => exact ⟨rfl, Or.inr ⟨rfl, by simp [lineComment]⟩⟩
  | cons c rest ih =>
    by_cases hc : c = 0x0a
    · subst hc
      exact ⟨rfl, Or.inl ⟨[], rfl, by simp⟩⟩
    · obtain ⟨happend, hbody⟩ := ih
      simp only [lineComment, hc, if_false]
      refine ⟨by rw [List.cons_append, happend], ?_⟩
      rcases hbody with ⟨body, hbody, hnone⟩ | ⟨hrest, hnone⟩
      · refine Or.inl ⟨c :: body, by rw [hbody, List.cons_append], ?_⟩
        simp [Ne.symm hc, hnone]
      · refine Or.inr ⟨hrest, ?_⟩
        simp [Ne.symm hc, hnone]

theorem bracketed_append {text value rest : Units} (h : bracketed text = some (value, rest)) :
    value ++ 0x5d :: rest = text := by
  induction text generalizing value with
  | nil => cases h
  | cons c text ih =>
    by_cases hc : c = 0x5d
    · rw [bracketed, if_pos hc] at h
      cases h
      rw [hc, List.nil_append]
    · rw [bracketed, if_neg hc, Option.map_eq_some_iff] at h
      obtain ⟨⟨_, _⟩, h, heq⟩ := h
      cases heq
      rw [List.cons_append, ih h]

theorem quotedText_append {q : ℕ} {source value text rest : Units}
    (h : quotedText q source = some (value, text, rest)) : text ++ rest = source := by
  induction source using quotedText.induct q generalizing value text with
  | case1 => cases h
  | case2 =>
    rw [quotedText, if_pos rfl] at h
    cases h
    rfl
  | case3 c hc =>
    rw [quotedText, if_neg hc] at h
    cases h
  | case4 _ ih =>
    rw [quotedText, if_pos rfl, if_pos rfl, Option.map_eq_some_iff] at h
    obtain ⟨⟨_, _, _⟩, h, heq⟩ := h
    cases heq
    rw [List.cons_append, List.cons_append, ih h]
  | case5 _ _ hd =>
    rw [quotedText, if_pos rfl, if_neg hd] at h
    cases h
    rfl
  | case6 _ _ _ hc ih =>
    rw [quotedText, if_neg hc, Option.map_eq_some_iff] at h
    obtain ⟨⟨_, _, _⟩, h, heq⟩ := h
    cases heq
    rw [List.cons_append, ih h]

variable {source text rest : Units}

variable {l : Lexeme}

/-- A token and what follows it are the text. -/
theorem lexeme_append {pragma : Bool}
    (h : lexeme pragma source = some (l, text, rest)) : text ++ rest = source ∧ text ≠ [] := by
  cases source with
  | nil => cases h
  | cons c source =>
    have htail : ∀ d, source.head? = some d → d :: source.drop 1 = source := by
      intro d hd
      cases source with
      | nil => cases hd
      | cons =>
        cases hd
        rfl
    rw [lexeme] at h
    split_ifs at h with hsemi hpragma hspace hblock hline hbracket hquote hword
    · cases h
      exact ⟨rfl, by simp⟩
    · cases h
      exact ⟨rfl, by simp⟩
    · cases h
      exact ⟨rfl, by simp⟩
    · rw [Option.map_eq_some_iff] at h
      obtain ⟨⟨_, _⟩, h, heq⟩ := h
      cases heq
      have hbody := (blockComment_append h).1
      refine ⟨?_, by simp⟩
      rw [List.cons_append, List.cons_append, hbody, htail _ hblock.2]
    · cases h
      have hbody := (lineComment_append (source.drop 1)).1
      refine ⟨?_, by simp⟩
      rw [List.cons_append, List.cons_append, hbody, htail _ hline.2]
    · rw [Option.map_eq_some_iff] at h
      obtain ⟨⟨value, _⟩, h, heq⟩ := h
      cases heq
      have hbody := bracketed_append h
      refine ⟨?_, by simp⟩
      show c :: (value ++ [0x5d]) ++ rest = c :: source
      rw [List.cons_append, List.append_assoc, List.singleton_append, hbracket, hbody]
    · rw [Option.map_eq_some_iff] at h
      obtain ⟨⟨_, _, _⟩, h, heq⟩ := h
      cases heq
      exact ⟨by rw [List.cons_append, quotedText_append h], by simp⟩
    · cases h
      refine ⟨List.takeWhile_append_dropWhile, ?_⟩
      simp [hword]
    · cases h
      exact ⟨rfl, by simp⟩

theorem text_of_semicolon {pragma : Bool}
    (h : lexeme pragma source = some (.semicolon, text, rest)) : text = [0x3b] := by
  cases source with
  | nil => cases h
  | cons =>
    rw [lexeme] at h
    split_ifs at h with hsemi
    · cases h
      rw [hsemi]
    all_goals simp at h

/-! ### What stands between tokens -/

/-- White space, a semicolon or a comment. -/
inductive Separator : Units → Prop
  | space {c : ℕ} (h : isCompleteWhitespace c = true) : Separator [c]
  | semicolon : Separator [0x3b]
  | block {body : Units} (h : ¬[0x2a, 0x2f] <:+: body) :
      Separator ([0x2f, 0x2a] ++ body ++ [0x2a, 0x2f])
  | line {body : Units} (h : 0x0a ∉ body) : Separator ([0x2d, 0x2d] ++ body ++ [0x0a])

/-- Separators, one after the other. -/
def Separated (text : Units) : Prop :=
  ∃ separators : List Units, (∀ separator ∈ separators, Separator separator) ∧
    text = separators.flatten

/-- Separators, of which the last may be a line comment that the text ends in. -/
def Blank (text : Units) : Prop :=
  ∃ before after, text = before ++ after ∧ Separated before ∧
    (after = [] ∨ ∃ body, 0x0a ∉ body ∧ after = [0x2d, 0x2d] ++ body)

/-- After some separators stands a token that is none. -/
def Executable (text : Units) : Prop :=
  ∃ before c rest, text = before ++ c :: rest ∧ Separated before ∧
    c ≠ 0x3b ∧ isCompleteWhitespace c = false ∧ ¬(c = 0x2f ∧ rest.head? = some 0x2a) ∧
      ¬(c = 0x2d ∧ rest.head? = some 0x2d)

theorem separated_nil : Separated [] := ⟨[], by simp, rfl⟩

theorem Separated.append {text separator : Units} (h : Separated text) (hs : Separator separator) :
    Separated (text ++ separator) := by
  obtain ⟨separators, hall, rfl⟩ := h
  refine ⟨separators ++ [separator], ?_, by simp⟩
  intro s hmem
  rcases List.mem_append.mp hmem with hmem | hmem
  · exact hall s hmem
  · exact List.mem_singleton.mp hmem ▸ hs

/-! ### The states of the pass -/

namespace Scan

variable {lower : Units → Units}

/-- The states the pass goes through, each with the text before it. -/
def Reaches (lower : Units → Units) : Scan × Units → Scan × Units → Prop :=
  Relation.ReflTransGen fun a b => a.1.next lower a.2 = some b

theorem next_eq_some {s s' : Scan} {source rest : Units}
    (h : s.next lower source = some (s', rest)) :
    ∃ l text, lexeme (decide (s.pragma ≠ .none)) source = some (l, text, rest) ∧
      s.step lower l text = some s' := by
  rw [next, Option.bind_eq_some_iff] at h
  obtain ⟨⟨l, text, _⟩, hlexeme, h⟩ := h
  rw [Option.map_eq_some_iff] at h
  obtain ⟨t, hstep, heq⟩ := h
  cases heq
  exact ⟨l, text, hlexeme, hstep⟩

theorem next_of_lexeme {s s' : Scan}
    (hl : lexeme (decide (s.pragma ≠ .none)) source = some (l, text, rest))
    (hstep : s.step lower l text = some s') : s.next lower source = some (s', rest) := by
  rw [next, hl, Option.bind_some]
  simp only [hstep, Option.map_some]

/-- Everything a token does: it cuts a slice or is added to the one that is open. -/
theorem step_cases {s s' : Scan} {text : Units} (h : s.step lower l text = some s') :
    ∃ commands pragma, s.admit? lower l text = some (commands, pragma) ∧
      s'.commands = commands ∧ s'.pragma = pragma ∧
      s'.complete = completeTransition s.complete (completeToken lower l) ∧
      ((completeToken lower l = .semi ∧ s'.complete = .start ∧ s.hasExecutableToken = true ∧
          s'.statements = s.statements ++ [s.pending ++ text] ∧ s'.pending = [] ∧
          s'.hasExecutableToken = false) ∨
        (¬(completeToken lower l = .semi ∧ s'.complete = .start ∧ s.hasExecutableToken = true) ∧
          s'.statements = s.statements ∧ s'.pending = s.pending ++ text ∧
          s'.hasExecutableToken = (s.hasExecutableToken ||
            decide (completeToken lower l ≠ .ws ∧ completeToken lower l ≠ .semi)))) := by
  rw [step, Option.map_eq_some_iff] at h
  obtain ⟨⟨commands, pragma⟩, hadmit, h⟩ := h
  refine ⟨commands, pragma, hadmit, ?_⟩
  simp only at h
  split_ifs at h with hcut
  · subst h
    obtain ⟨hsemi, hstart, hexec⟩ := hcut
    refine ⟨rfl, rfl, rfl, Or.inl ⟨hsemi, hstart, ?_, rfl, rfl, rfl⟩⟩
    simpa [hsemi] using hexec
  · subst h
    refine ⟨rfl, rfl, rfl, Or.inr ⟨?_, rfl, rfl, rfl⟩⟩
    rintro ⟨hsemi, hstart, hexec⟩
    exact hcut ⟨hsemi, hstart, by simp [hexec]⟩

/-- The pass ends on every text. -/
theorem reaches_of_scan {fuel : ℕ} {s t : Scan} {text : Units}
    (h : scan lower fuel s text = some t) : Reaches lower (s, text) (t, []) := by
  induction fuel generalizing s text with
  | zero =>
    cases text with
    | nil =>
      cases h
      exact Relation.ReflTransGen.refl
    | cons => cases h
  | succ fuel ih =>
    cases text with
    | nil =>
      cases h
      exact Relation.ReflTransGen.refl
    | cons =>
      rw [scan, Option.bind_eq_some_iff] at h
      obtain ⟨⟨_, _⟩, hnext, h⟩ := h
      exact Relation.ReflTransGen.head hnext (ih h)

/-- The pass ends: a token takes a unit of the text at least. -/
theorem scan_of_reaches {fuel : ℕ} {s t : Scan} {text : Units}
    (h : Reaches lower (s, text) (t, [])) (hfuel : text.length ≤ fuel) :
    scan lower fuel s text = some t := by
  induction fuel generalizing s text with
  | zero =>
    obtain rfl : text = [] := List.length_eq_zero_iff.mp (by omega)
    rcases Relation.ReflTransGen.cases_head h with heq | ⟨b, hnext, -⟩
    · cases heq
      rfl
    · cases hnext
  | succ fuel ih =>
    rcases Relation.ReflTransGen.cases_head h with heq | ⟨⟨_, _⟩, hnext, hrest⟩
    · cases heq
      rfl
    cases text with
    | nil => cases hnext
    | cons =>
      obtain ⟨l, _, hlexeme, -⟩ := next_eq_some hnext
      obtain ⟨happend, hne⟩ := lexeme_append hlexeme
      have hlength := congrArg List.length happend
      have hpos := List.length_pos_iff.mpr hne
      rw [List.length_append] at hlength
      rw [List.length_cons] at hlength hfuel
      rw [scan, hnext, Option.bind_some]
      exact ih hrest (by omega)

end Scan

/-! ### Framing -/

section Framing

variable {lower : Units → Units}

theorem completeToken_separator :
    (completeToken lower l = .ws ∨ completeToken lower l = .semi) ↔
      l = .semicolon ∨ l = .pragmaSpace ∨ l = .space ∨ l = .comment := by
  cases l with
  | word value =>
    have hword : completeKeyword lower value ≠ .ws ∧ completeKeyword lower value ≠ .semi := by
      simp only [completeKeyword]
      split_ifs <;> simp
    simp [completeToken, hword]
  | _ => simp [completeToken]

theorem separator_of_lexeme
    (h : lexeme false source = some (l, text, rest))
    (hl : completeToken lower l = .ws ∨ completeToken lower l = .semi) :
    Separator text ∨ (rest = [] ∧ ∃ body, 0x0a ∉ body ∧ text = [0x2d, 0x2d] ++ body) := by
  rw [completeToken_separator] at hl
  cases source with
  | nil => cases h
  | cons c source =>
    rw [lexeme] at h
    split_ifs at h with hsemi hpragma hspace hblock hline hbracket hquote hword
    · cases h
      exact Or.inl (hsemi ▸ Separator.semicolon)
    · simp at hpragma
    · cases h
      exact Or.inl (Separator.space hspace)
    · rw [Option.map_eq_some_iff] at h
      obtain ⟨⟨_, _⟩, h, heq⟩ := h
      cases heq
      obtain ⟨-, _, rfl, hinner⟩ := blockComment_append h
      rw [hblock.1]
      exact Or.inl (Separator.block hinner)
    · cases h
      rw [hline.1]
      rcases (lineComment_append (source.drop 1)).2 with ⟨_, hbody, hnone⟩ | ⟨hrest, hnone⟩
      · rw [hbody]
        exact Or.inl (Separator.line hnone)
      · exact Or.inr ⟨hrest, _, hnone, rfl⟩
    · rw [Option.map_eq_some_iff] at h
      obtain ⟨⟨_, _⟩, h, heq⟩ := h
      cases heq
      simp at hl
    · rw [Option.map_eq_some_iff] at h
      obtain ⟨⟨_, _, _⟩, h, heq⟩ := h
      cases heq
      simp at hl
    · cases h
      simp at hl
    · cases h
      simp at hl

theorem head_of_lexeme
    (h : lexeme false source = some (l, text, rest))
    (hl : ¬(completeToken lower l = .ws ∨ completeToken lower l = .semi)) :
    ∃ c source', source = c :: source' ∧ c ≠ 0x3b ∧ isCompleteWhitespace c = false ∧
      ¬(c = 0x2f ∧ source'.head? = some 0x2a) ∧ ¬(c = 0x2d ∧ source'.head? = some 0x2d) := by
  rw [completeToken_separator] at hl
  cases source with
  | nil => cases h
  | cons c source =>
    refine ⟨c, source, rfl, ?_⟩
    rw [lexeme] at h
    split_ifs at h with hsemi hpragma hspace hblock hline
    · cases h
      simp at hl
    · simp at hpragma
    · cases h
      simp at hl
    · rw [Option.map_eq_some_iff] at h
      obtain ⟨⟨_, _⟩, -, heq⟩ := h
      cases heq
      simp at hl
    · cases h
      simp at hl
    all_goals exact ⟨hsemi, by simpa using hspace, hblock, hline⟩

/-- What the open slice holds, before the rest of the text: a token after some separators, or
separators only. -/
def Opened (s : Scan) (rest : Units) : Prop :=
  if s.hasExecutableToken then
    ∃ before c after, s.pending = before ++ c :: after ∧ Separated before ∧ c ≠ 0x3b ∧
      isCompleteWhitespace c = false ∧ ¬(c = 0x2f ∧ (after ++ rest).head? = some 0x2a) ∧
        ¬(c = 0x2d ∧ (after ++ rest).head? = some 0x2d)
  else s.pragma = .none ∧ (Separated s.pending ∨ (rest = [] ∧ Blank s.pending))

/-- What holds of the pass before the rest of the text. -/
structure Framed (sql : Units) (s : Scan) (rest : Units) : Prop where
  text : s.statements.flatten ++ s.pending ++ rest = sql
  executable : ∀ statement ∈ s.statements, Executable statement
  opened : Opened s rest

theorem framed_start (sql : Units) : Framed sql {} sql :=
  ⟨rfl, by simp, rfl, Or.inl separated_nil⟩

/-- What a token adds to the open slice. -/
theorem opened_next {s : Scan} {source rest text : Units}
    (hlexeme : lexeme (decide (s.pragma ≠ .none)) source = some (l, text, rest))
    (h : Opened s source) :
    if s.hasExecutableToken ∨ ¬(completeToken lower l = .ws ∨ completeToken lower l = .semi) then
      ∃ before c after, s.pending ++ text = before ++ c :: after ∧ Separated before ∧ c ≠ 0x3b ∧
        isCompleteWhitespace c = false ∧ ¬(c = 0x2f ∧ (after ++ rest).head? = some 0x2a) ∧
          ¬(c = 0x2d ∧ (after ++ rest).head? = some 0x2d)
    else Separated (s.pending ++ text) ∨ (rest = [] ∧ Blank (s.pending ++ text)) := by
  obtain ⟨happend, hne⟩ := lexeme_append hlexeme
  by_cases hexec : s.hasExecutableToken
  · -- the token is further on in the open slice
    rw [if_pos (Or.inl hexec)]
    simp only [Opened, hexec, if_true] at h
    obtain ⟨before, c, after, hpending, hbefore, hsemi, hspace, _, _⟩ := h
    refine ⟨before, c, after ++ text, by simp [hpending], hbefore, hsemi, hspace, ?_, ?_⟩
    · rwa [List.append_assoc, happend]
    · rwa [List.append_assoc, happend]
  · simp only [Opened, hexec, Bool.false_eq_true, if_false] at h
    obtain ⟨hpragma, hpending⟩ := h
    have hopen : Separated s.pending := by
      rcases hpending with hpending | ⟨rfl, -⟩
      · exact hpending
      · cases hlexeme
    rw [hpragma] at hlexeme
    by_cases hl : completeToken lower l = .ws ∨ completeToken lower l = .semi
    · rw [if_neg (by simp [hexec, hl])]
      rcases separator_of_lexeme hlexeme hl with hsep | ⟨hrest, body, hbody, rfl⟩
      · exact Or.inl (hopen.append hsep)
      · exact Or.inr ⟨hrest, s.pending, _, rfl, hopen, Or.inr ⟨body, hbody, rfl⟩⟩
    · -- the first token of the slice that is executed
      rw [if_pos (Or.inr hl)]
      obtain ⟨c, _, rfl, hsemi, hspace, hblock, hline⟩ := head_of_lexeme hlexeme hl
      obtain ⟨d, after, rfl⟩ : ∃ d after, text = d :: after := List.exists_cons_of_ne_nil hne
      rw [List.cons_append, List.cons.injEq] at happend
      obtain ⟨rfl, rfl⟩ := happend
      exact ⟨s.pending, d, after, rfl, hopen, hsemi, hspace, hblock, hline⟩

theorem framed_next {sql source rest : Units} {s s' : Scan} (hs : Framed sql s source)
    (h : s.next lower source = some (s', rest)) : Framed sql s' rest := by
  obtain ⟨l, text, hlexeme, hstep⟩ := Scan.next_eq_some h
  obtain ⟨happend, -⟩ := lexeme_append hlexeme
  have hopened := @opened_next _ lower _ _ _ _ hlexeme hs.opened
  obtain ⟨_, pragma, hadmit, -, hpragma, -, hcut⟩ := Scan.step_cases hstep
  rcases hcut with ⟨hsemi, -, hexec, hstatements, hpending, hnone⟩ |
    ⟨-, hstatements, hpending, hexec⟩
  · -- the semicolon cuts the slice
    rw [if_pos (Or.inl hexec)] at hopened
    obtain ⟨before, c, after, hslice, hbefore, hc, hspace, hblock, hline⟩ := hopened
    obtain rfl : l = .semicolon := by
      rcases completeToken_separator.mp (Or.inr hsemi) with h | h | h | h
      · exact h
      all_goals rw [h] at hsemi; cases hsemi
    have hclosed : pragma = .none := by
      simp only [Scan.admit?] at hadmit
      split at hadmit
      · cases hadmit
        rfl
      · cases hadmit
        rfl
      · cases hadmit
    have htext := text_of_semicolon hlexeme
    -- the token is not the semicolon, so something of the slice follows it
    have hafter : after ≠ [] := by
      rintro rfl
      rw [htext] at hslice
      have hlast := List.append_inj_right' hslice rfl
      exact hc (List.cons.inj hlast).1.symm
    have hhead : (after ++ rest).head? = after.head? := List.head?_append_of_ne_nil _ hafter
    rw [hhead] at hblock hline
    refine ⟨?_, ?_, ?_⟩
    · rw [hstatements, hpending, List.flatten_append, List.flatten_singleton, List.append_nil,
        ← List.append_assoc, List.append_assoc, happend]
      exact hs.text
    · intro statement hmem
      rw [hstatements, List.mem_append, List.mem_singleton] at hmem
      rcases hmem with hmem | rfl
      · exact hs.executable statement hmem
      · exact ⟨before, c, after, hslice, hbefore, hc, hspace, hblock, hline⟩
    · simp only [Opened, hnone, Bool.false_eq_true, if_false]
      exact ⟨hpragma.trans hclosed, Or.inl (hpending ▸ separated_nil)⟩
  · refine ⟨?_, ?_, ?_⟩
    · rw [hstatements, hpending, ← List.append_assoc, List.append_assoc, happend]
      exact hs.text
    · rw [hstatements]
      exact hs.executable
    by_cases hexec' : s.hasExecutableToken = true ∨
        ¬(completeToken lower l = .ws ∨ completeToken lower l = .semi)
    · rw [if_pos hexec'] at hopened
      have htrue : s'.hasExecutableToken = true := by
        rw [hexec, Bool.or_eq_true, decide_eq_true_eq]
        exact hexec'.imp_right not_or.mp
      simp only [Opened, htrue, if_true, hpending]
      exact hopened
    · rw [if_neg hexec'] at hopened
      obtain ⟨hno, hsep⟩ := not_or.mp hexec'
      have hfalse : s'.hasExecutableToken = false := by
        rw [hexec, Bool.or_eq_false_iff, decide_eq_false_iff_not]
        exact ⟨by simpa using hno, fun hand => hsep (by tauto)⟩
      have hnone : s.pragma = .none := by
        have := hs.opened
        simp only [Opened, hno] at this
        exact this.1
      have hadmitted : pragma = .none := by
        rcases completeToken_separator.mp (not_not.mp hsep) with rfl | rfl | rfl | rfl <;>
          simp only [Scan.admit?, hnone, if_true] at hadmit <;> cases hadmit <;> rfl
      simp only [Opened, hfalse, Bool.false_eq_true, if_false, hpending]
      exact ⟨hpragma.trans hadmitted, hopened⟩

theorem framed_of_reaches {sql rest : Units} {s : Scan}
    (h : Scan.Reaches lower ({}, sql) (s, rest)) : Framed sql s rest := by
  obtain ⟨b, hb⟩ : ∃ b, b = (s, rest) := ⟨_, rfl⟩
  rw [← hb] at h
  have key : Framed sql b.1 b.2 := by
    clear hb
    induction h with
    | refl => exact framed_start sql
    | tail _ hnext ih => exact framed_next ih hnext
  rwa [hb] at key

theorem prepare_eq_ok {sql : Units} {maximum : Option ℕ} {slices : List Units}
    (h : prepareMigrationSql lower sql maximum = .ok slices) :
    sql.contains 0 = false ∧ (maximum.any fun m => decide (m < 1 ∨ 2 ^ 53 ≤ m)) = false ∧
      (∃ s, Scan.Reaches lower ({}, sql) (s, []) ∧ s.finish = some slices) ∧
        ∀ m, maximum = some m → ∀ slice ∈ slices, byteLength slice ≤ m := by
  unfold prepareMigrationSql at h
  split_ifs at h with hzero hmax
  split at h
  · cases h
  next hscan =>
  obtain ⟨s, hs, hfinish⟩ := Option.bind_eq_some_iff.mp hscan
  have hreaches := Scan.reaches_of_scan hs
  refine ⟨by simpa using hzero, by simpa using hmax, ⟨s, hreaches, ?_⟩, ?_⟩
  · split at h
    · cases h
      exact hfinish
    · split at h
      · cases h
        exact hfinish
      · cases h
  · rintro m rfl
    simp only at h
    split at h
    · next hnone =>
      cases h
      intro slice hmem
      have := List.find?_eq_none.mp hnone slice hmem
      simpa using this
    · cases h

/-- **Framing loses nothing.**  The slices of an accepted text are, one after the other, the text up
to a rest that holds separators only, and each holds a token to execute. -/
theorem prepareMigrationSql_frames (lower : Units → Units) (sql : Units) (maximum : Option ℕ)
    (slices : List Units) (h : prepareMigrationSql lower sql maximum = .ok slices) :
    ∃ suffix, sql = slices.flatten ++ suffix ∧ Blank suffix ∧ ∀ slice ∈ slices, Executable slice := by
  obtain ⟨-, -, ⟨s, hreaches, hfinish⟩, -⟩ := prepare_eq_ok h
  have hframed := framed_of_reaches hreaches
  have htext := hframed.text
  have hopened := hframed.opened
  rw [List.append_nil] at htext
  unfold Scan.finish at hfinish
  split_ifs at hfinish with hended hexec hcomplete
  · -- the last slice lacks its semicolon
    cases hfinish
    simp only [Opened, hexec, if_true, List.append_nil] at hopened
    obtain ⟨before, c, after, hpending, hbefore⟩ := hopened
    refine ⟨[], by simp [htext], ⟨[], [], rfl, separated_nil, Or.inl rfl⟩, ?_⟩
    intro slice hmem
    rcases List.mem_append.mp hmem with hmem | hmem
    · exact hframed.executable slice hmem
    · obtain rfl := List.mem_singleton.mp hmem
      exact ⟨before, c, after, hpending, hbefore⟩
  · cases hfinish
    simp only [Opened, hexec] at hopened
    refine ⟨s.pending, htext.symm, ?_, hframed.executable⟩
    rcases hopened.2 with hpending | ⟨-, hblank⟩
    · exact ⟨s.pending, [], by simp, hpending, Or.inl rfl⟩
    · exact hblank

/-- ASCII letters to lower case. -/
def asciiLower (value : Units) : Units :=
  value.map fun c => if 0x41 ≤ c ∧ c ≤ 0x5a then c + 32 else c

/-- Two statements and a comment. -/
theorem prepareMigrationSql_frames_two :
    prepareMigrationSql asciiLower (units "SELECT 1; /* ; */ SELECT 2; --") =
      .ok [units "SELECT 1;", units " /* ; */ SELECT 2;"] ∧
    ∃ suffix, units "SELECT 1; /* ; */ SELECT 2; --" =
      [units "SELECT 1;", units " /* ; */ SELECT 2;"].flatten ++ suffix ∧ Blank suffix ∧
        ∀ slice ∈ [units "SELECT 1;", units " /* ; */ SELECT 2;"], Executable slice := by
  have h : prepareMigrationSql asciiLower (units "SELECT 1; /* ; */ SELECT 2; --") =
      .ok [units "SELECT 1;", units " /* ; */ SELECT 2;"] := by decide +kernel
  exact ⟨h, prepareMigrationSql_frames asciiLower _ none _ h⟩

end Framing

end Takoserver.Migrations
