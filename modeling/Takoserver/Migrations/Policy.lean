import Takoserver.Migrations.Framing

/-!
# The policy, slice by slice

Each slice is executed on its own, so the policy has to hold of each slice read on its
own.  It does where the pass is at no cut inside what the policy takes for a trigger
body.  The policy takes any CREATE, then TRIGGER, then BEGIN for one, whatever tokens
stand between the words; the completeness automaton does not.
-/

namespace Takoserver.Migrations

/-! ### Tokens depend on one unit more -/

variable {text rest rest' value source sql : Units} {l : Lexeme} {s s' t : Scan}
  {slices : List Units}

theorem blockComment_congr {body : Units} (h : blockComment text = some (body, rest))
    (rest' : Units) : blockComment (body ++ rest') = some (body, rest') := by
  induction text using blockComment.induct generalizing body with
  | case1 => cases h
  | case2 => cases h
  | case3 _ _ _ hclose =>
    rw [blockComment, if_pos hclose] at h
    cases h
    rw [List.cons_append, List.cons_append, List.nil_append, blockComment, if_pos hclose]
  | case4 _ _ _ hopen ih =>
    rw [blockComment, if_neg hopen, Option.map_eq_some_iff] at h
    obtain ⟨⟨body', _⟩, h, heq⟩ := h
    cases heq
    have hbody := ih h
    obtain ⟨happend, _, hinner, -⟩ := blockComment_append h
    -- the body goes on with the unit that was looked at
    obtain ⟨e, body'', rfl⟩ : ∃ e body'', body' = e :: body'' := by
      refine List.exists_cons_of_ne_nil ?_
      rw [hinner]
      simp
    rw [List.cons_append, List.cons.injEq] at happend
    rw [List.cons_append, List.cons_append, blockComment, if_neg (happend.1 ▸ hopen),
      ← List.cons_append, hbody]
    rfl

theorem lineComment_congr (h : (lineComment text).2.head? = rest'.head?) :
    lineComment ((lineComment text).1 ++ rest') = ((lineComment text).1, rest') := by
  induction text with
  | nil =>
    obtain rfl : rest' = [] := by
      cases rest' with
      | nil => rfl
      | cons => cases h
    rfl
  | cons c text ih =>
    by_cases hc : c = 0x0a
    · simp [lineComment, hc]
    · simp only [lineComment, hc, if_false] at h ⊢
      have := ih h
      simp [lineComment, hc, this]

theorem bracketed_congr (h : bracketed text = some (value, rest)) (rest' : Units) :
    bracketed (value ++ 0x5d :: rest') = some (value, rest') := by
  induction text generalizing value with
  | nil => cases h
  | cons c text ih =>
    by_cases hc : c = 0x5d
    · rw [bracketed, if_pos hc] at h
      cases h
      rfl
    · rw [bracketed, if_neg hc, Option.map_eq_some_iff] at h
      obtain ⟨⟨_, _⟩, h, heq⟩ := h
      cases heq
      rw [List.cons_append, bracketed, if_neg hc, ih h]
      rfl

theorem quotedText_ne_nil {q : ℕ} (h : quotedText q source = some (value, text, rest)) :
    text ≠ [] := by
  rcases source with _ | ⟨c, _ | ⟨d, _⟩⟩
  · cases h
  · rw [quotedText] at h
    split at h
    · cases h
      simp
    · cases h
  · rw [quotedText] at h
    split_ifs at h
    · obtain ⟨⟨v, t, r⟩, -, heq⟩ := Option.map_eq_some_iff.mp h
      cases heq
      simp
    · cases h
      simp
    · obtain ⟨⟨v, t, r⟩, -, heq⟩ := Option.map_eq_some_iff.mp h
      cases heq
      simp

theorem quotedText_congr {q : ℕ} (h : quotedText q source = some (value, text, rest))
    (hrest : rest.head? = rest'.head?) :
    quotedText q (text ++ rest') = some (value, text, rest') := by
  induction source using quotedText.induct q generalizing value text with
  | case1 => cases h
  | case2 =>
    rw [quotedText, if_pos rfl] at h
    cases h
    obtain rfl : rest' = [] := by
      cases rest' with
      | nil => rfl
      | cons => cases hrest
    simp [quotedText]
  | case3 c hc =>
    rw [quotedText, if_neg hc] at h
    cases h
  | case4 _ ih =>
    rw [quotedText, if_pos rfl, if_pos rfl, Option.map_eq_some_iff] at h
    obtain ⟨⟨_, _, _⟩, h, heq⟩ := h
    cases heq
    rw [List.cons_append, List.cons_append, quotedText, if_pos rfl, if_pos rfl, ih h]
    rfl
  | case5 d _ hd =>
    rw [quotedText, if_pos rfl, if_neg hd] at h
    cases h
    obtain ⟨tail, rfl⟩ : ∃ tail, rest' = d :: tail := by
      cases rest' with
      | nil => cases hrest
      | cons c rest' => exact ⟨rest', by rw [Option.some.inj hrest]⟩
    rw [List.singleton_append, quotedText, if_pos rfl, if_neg hd]
  | case6 _ _ _ hc ih =>
    rw [quotedText, if_neg hc, Option.map_eq_some_iff] at h
    obtain ⟨⟨_, _, _⟩, h, heq⟩ := h
    cases heq
    have htext := ih h
    -- the text goes on, or it would have ended here
    obtain ⟨e, _, rfl⟩ := List.exists_cons_of_ne_nil (quotedText_ne_nil h)
    rw [List.cons_append, List.cons_append, quotedText, if_neg hc, ← List.cons_append, htext]
    rfl

/-- A token depends on what follows it by one unit at most. -/
theorem lexeme_congr {pragma : Bool} (h : lexeme pragma source = some (l, text, rest))
    (hrest : rest.head? = rest'.head?) :
    lexeme pragma (text ++ rest') = some (l, text, rest') := by
  obtain ⟨happend, hne⟩ := lexeme_append h
  obtain ⟨c, text, rfl⟩ := List.exists_cons_of_ne_nil hne
  subst happend
  have hhead : (text ++ rest).head? = (text ++ rest').head? := by
    rw [List.head?_append, List.head?_append, hrest]
  rw [List.cons_append, lexeme] at h
  rw [List.cons_append, lexeme, ← hhead]
  split_ifs at h ⊢ with hsemi hpragma hspace hblock hline hbracket hquote hword
  · cases h
    rfl
  · cases h
    rfl
  · cases h
    rfl
  · obtain ⟨⟨_, _⟩, h, heq⟩ := Option.map_eq_some_iff.mp h
    cases heq
    have hbody := blockComment_congr h rest'
    simp [hbody]
  · simp only [Option.some.injEq, Prod.mk.injEq, List.cons.injEq, true_and] at h
    obtain ⟨rfl, hbody, hafter⟩ := h
    obtain ⟨d, _, rfl⟩ := List.exists_cons_of_ne_nil (hbody ▸ List.cons_ne_nil _ _)
    simp only [List.cons_append, List.drop_succ_cons, List.drop_zero, List.cons.injEq] at hbody hafter ⊢
    rw [← hafter] at hrest
    have hcomment := lineComment_congr hrest
    rw [hbody.2] at hcomment
    rw [hcomment, hbody.1]
  · obtain ⟨⟨_, _⟩, h, heq⟩ := Option.map_eq_some_iff.mp h
    cases heq
    have hvalue := bracketed_congr h rest'
    simp [hvalue]
  · obtain ⟨⟨_, _, _⟩, h, heq⟩ := Option.map_eq_some_iff.mp h
    cases heq
    rw [quotedText_congr h hrest]
    rfl
  · simp only [Option.some.injEq, Prod.mk.injEq] at h
    obtain ⟨rfl, htake, hdrop⟩ := h
    have hall : ∀ d ∈ c :: text, isSqliteIdentifierUnit d = true := by
      intro d hd
      rw [← htake] at hd
      exact List.mem_takeWhile_imp hd
    have hstop : rest'.takeWhile isSqliteIdentifierUnit = [] ∧
        rest'.dropWhile isSqliteIdentifierUnit = rest' := by
      cases rest' with
      | nil => exact ⟨rfl, rfl⟩
      | cons e =>
        -- the unit that ends the word is the same
        have he : isSqliteIdentifierUnit e = false := by
          have hd := List.head?_dropWhile_not isSqliteIdentifierUnit (c :: (text ++ rest))
          rw [hdrop, hrest] at hd
          simpa using hd
        simp [he]
    rw [← List.cons_append, List.takeWhile_append_of_pos hall, List.dropWhile_append_of_pos hall,
      hstop.1, hstop.2, List.append_nil, htake]
  · cases h
    rfl

/-! ### A slice on its own -/

namespace Scan

variable {lower : Units → Units}

/-- The completeness automaton at the start of a text and where it was, with a slice behind it. -/
def Twin (c d : CompleteState) : Prop := c = d ∨ (c = .invalid ∧ d = .start)

variable {c : CompleteState} {b a : Scan × Units}

theorem Twin.transition {d : CompleteState} (h : Twin c d) (token : CompleteToken) :
    Twin (completeTransition c token) (completeTransition d token) := by
  rcases h with rfl | ⟨rfl, rfl⟩
  · exact Or.inl rfl
  · cases token with
    | ws => exact Or.inr ⟨rfl, rfl⟩
    | _ => exact Or.inl rfl

theorem Twin.semi {d : CompleteState} (h : Twin c d) :
    completeTransition c .semi = completeTransition d .semi := by
  rcases h with rfl | ⟨rfl, rfl⟩ <;> rfl

/-- The slice is accepted alone, as it is. -/
def Alone (lower : Units → Units) (slice : Units) : Prop :=
  ∃ t : Scan, Reaches lower ({}, slice) (t, []) ∧ t.finish = some [slice]

/-- The pass over the open slice alone stands where the pass over the whole text does. -/
def alone (s : Scan) (complete : CompleteState) (statements : List Units) : Scan :=
  { s with complete, statements }

/-- A token does to the pass over the open slice alone what it does to the pass over the text. -/
theorem step_alone (hc : Twin c s.complete) (h : s.step lower l text = some s') :
    ∃ c', Twin c' s'.complete ∧ ∃ slices, (s.alone c []).step lower l text = some (s'.alone c' slices) ∧
      s'.statements = s.statements ++ slices := by
  rw [step, Option.map_eq_some_iff] at h
  obtain ⟨⟨commands, pragma⟩, hadmit, h⟩ := h
  have hadmit' : (s.alone c []).admit? lower l text = some (commands, pragma) := hadmit
  have htwin := hc.transition (completeToken lower l)
  -- the semicolon cuts both or none
  have hcut : completeToken lower l = .semi →
      completeTransition c (completeToken lower l) =
        completeTransition s.complete (completeToken lower l) := by
    intro hsemi
    rw [hsemi, hc.semi]
  refine ⟨completeTransition c (completeToken lower l), ?_⟩
  rw [step, hadmit', Option.map_some]
  simp only at h
  split at h
  · next hthis =>
    subst h
    refine ⟨htwin, [s.pending ++ text], congrArg some (if_pos ?_), rfl⟩
    exact ⟨hthis.1, (hcut hthis.1).trans hthis.2.1, hthis.2.2⟩
  · next hthis =>
    subst h
    refine ⟨htwin, [], congrArg some (if_neg ?_), (List.append_nil _).symm⟩
    exact fun hother => hthis ⟨hother.1, (hcut hother.1).symm.trans hother.2.1, hother.2.2⟩

theorem cut_cases (h : s.next lower source = some (s', rest)) (hcut : s'.statements ≠ s.statements) :
    source = 0x3b :: rest ∧ s.hasExecutableToken = true ∧
      completeTransition s.complete .semi = .start ∧
        s' = { complete := .start
               commands := s.commands.semicolon
               statements := s.statements ++ [s.pending ++ [0x3b]] } := by
  obtain ⟨l, _, hlexeme, hstep⟩ := next_eq_some h
  obtain ⟨commands, pragma, hadmit, hcommands, hpragma, hcomplete, hcases⟩ := step_cases hstep
  rcases hcases with ⟨hsemi, hstart, hexec, hstatements, hpending, hnone⟩ | ⟨-, hstatements, -⟩
  · obtain rfl : l = .semicolon := by
      rcases completeToken_separator.mp (Or.inr hsemi) with h | h | h | h
      · exact h
      all_goals rw [h] at hsemi; cases hsemi
    obtain rfl := text_of_semicolon hlexeme
    have hadmitted : commands = s.commands.semicolon ∧ pragma = .none := by
      simp only [admit?] at hadmit
      split at hadmit
      · cases hadmit
        exact ⟨rfl, rfl⟩
      · cases hadmit
        exact ⟨rfl, rfl⟩
      · cases hadmit
    rw [hstart] at hcomplete
    refine ⟨(lexeme_append hlexeme).1.symm, hexec, hcomplete.symm, ?_⟩
    cases s'
    simp only at hcommands hpragma hstart hstatements hpending hnone
    simp only [hcommands, hpragma, hstart, hstatements, hpending, hnone, hadmitted]
  · exact absurd hstatements hcut

/-- What the pass over the text up to its rest says of its slices: each is accepted alone, and the
pass over the open slice alone comes to the same point, whatever follows the next unit. -/
structure Replayed (lower : Units → Units) (s : Scan) (rest : Units) : Prop where
  slices : ∀ slice ∈ s.statements, Alone lower slice
  replay : ∀ rest' : Units, rest.head? = rest'.head? → ∃ c, Twin c s.complete ∧
    Reaches lower ({}, s.pending ++ rest') (s.alone c [], rest')

theorem replayed_start (sql : Units) : Replayed lower {} sql :=
  ⟨by simp, fun _ _ => ⟨.invalid, Or.inl rfl, Relation.ReflTransGen.refl⟩⟩

/-- A slice that is cut, read alone: it is refused where the cut is in a trigger body. -/
theorem Replayed.cut (hs : Replayed lower s source) (h : s.next lower source = some (s', rest))
    (hcut : s'.statements ≠ s.statements) :
    ∃ t : Scan, Reaches lower ({}, s.pending ++ [0x3b]) (t, []) ∧
      t.finish = if s.commands.triggerBody then none else some [s.pending ++ [0x3b]] := by
  obtain ⟨rfl, -, -, rfl⟩ := cut_cases h hcut
  obtain ⟨l, text, hlexeme, hstep⟩ := next_eq_some h
  obtain ⟨c, hc, hreaches⟩ := hs.replay [0x3b] rfl
  obtain ⟨_, -, slices, hstep', hslices⟩ := step_alone hc hstep
  obtain rfl : slices = [s.pending ++ [0x3b]] := List.append_cancel_left hslices.symm
  -- the semicolon is the same token with nothing behind it
  have hlexeme' : lexeme (decide ((s.alone c []).pragma ≠ .none)) [0x3b] = some (l, text, []) := by
    rw [lexeme, if_pos rfl] at hlexeme ⊢
    cases hlexeme
    rfl
  refine ⟨_, hreaches.tail (next_of_lexeme hlexeme' hstep'), ?_⟩
  cases hbody : s.commands.triggerBody <;>
    simp [finish, Scan.alone, Commands.semicolon, Commands.reset, hbody]

theorem Replayed.next (hs : Replayed lower s source) (h : s.next lower source = some (s', rest))
    (hcut : s'.statements ≠ s.statements → s.commands.triggerBody = false) :
    Replayed lower s' rest := by
  by_cases hsame : s'.statements = s.statements
  · obtain ⟨l, text, hlexeme, hstep⟩ := next_eq_some h
    refine ⟨hsame ▸ hs.slices, fun rest' hrest => ?_⟩
    have hlexeme' := lexeme_congr hlexeme hrest
    obtain ⟨happend, hne⟩ := lexeme_append hlexeme
    have hhead : source.head? = (text ++ rest').head? := by
      rw [← happend, List.head?_append_of_ne_nil _ hne, List.head?_append_of_ne_nil _ hne]
    obtain ⟨c, hc, hreaches⟩ := hs.replay (text ++ rest') hhead
    obtain ⟨c', hc', slices, hstep', hslices⟩ := step_alone hc hstep
    obtain rfl : slices = [] := by
      rw [hsame] at hslices
      exact List.self_eq_append_right.mp hslices
    have hpending : s'.pending = s.pending ++ text := by
      obtain ⟨-, -, -, -, -, -, ⟨-, -, -, hstatements, -⟩ | ⟨-, -, hpending, -⟩⟩ := step_cases hstep
      · simp [hsame] at hstatements
      · exact hpending
    refine ⟨c', hc', ?_⟩
    rw [hpending, List.append_assoc]
    exact hreaches.tail (next_of_lexeme hlexeme' hstep')
  · obtain ⟨t, ht, hfinish⟩ := hs.cut h hsame
    have hbody := hcut hsame
    obtain ⟨rfl, -, -, rfl⟩ := cut_cases h hsame
    rw [hbody, if_neg Bool.false_ne_true] at hfinish
    refine ⟨?_, fun rest' _ => ⟨.invalid, Or.inr ⟨rfl, rfl⟩, ?_⟩⟩
    · intro slice hmem
      rcases List.mem_append.mp hmem with hmem | hmem
      · exact hs.slices slice hmem
      · obtain rfl := List.mem_singleton.mp hmem
        exact ⟨t, ht, hfinish⟩
    · -- the next slice starts as a text does
      have hfresh : s.commands.semicolon = {} := by
        simp [Commands.semicolon, Commands.reset, hbody]
      simp only [alone, hfresh, List.nil_append]
      exact Relation.ReflTransGen.refl

/-- **The automata agree**: no semicolon that ends a statement for the completeness automaton is in
what the policy takes for a trigger body. -/
def Agrees (lower : Units → Units) (sql : Units) : Prop :=
  ∀ s rest, Reaches lower ({}, sql) (s, 0x3b :: rest) → s.hasExecutableToken = true →
    completeTransition s.complete .semi = .start → s.commands.triggerBody = false

theorem replayed_of_agrees (hagrees : Agrees lower sql) (h : Reaches lower ({}, sql) b) :
    Replayed lower b.1 b.2 := by
  induction h with
  | refl => exact replayed_start sql
  | @tail b d hb hnext ih =>
    refine ih.next hnext fun hcut => ?_
    obtain ⟨hsource, hexec, hstart, -⟩ := cut_cases hnext hcut
    exact hagrees b.1 d.2 (hsource ▸ hb) hexec hstart

theorem statements_of_reaches (h : Reaches lower a b) :
    ∃ more, b.1.statements = a.1.statements ++ more := by
  induction h with
  | refl => exact ⟨[], (List.append_nil _).symm⟩
  | tail _ hnext ih =>
    obtain ⟨more, hmore⟩ := ih
    obtain ⟨l, _, -, hstep⟩ := next_eq_some hnext
    obtain ⟨_, -, slices, -, hslices⟩ := step_alone (Or.inl rfl) hstep
    exact ⟨more ++ slices, by rw [hslices, hmore, List.append_assoc]⟩

theorem finish_cases (h : t.finish = some slices) :
    (t.pragma = .none ∨ t.pragma = .ended) ∧ t.commands.triggerBody = false ∧
      ((t.hasExecutableToken = false ∧ slices = t.statements) ∨
        (t.hasExecutableToken = true ∧ completeTransition t.complete .semi = .start ∧
          slices = t.statements ++ [t.pending])) := by
  unfold finish at h
  split_ifs at h with hended hexec hcomplete
  · exact ⟨hended.1, hended.2, Or.inr ⟨hexec, hcomplete, (Option.some.inj h).symm⟩⟩
  · exact ⟨hended.1, hended.2, Or.inl ⟨by simpa using hexec, (Option.some.inj h).symm⟩⟩

/-- The pass is the same however often it is made. -/
theorem reaches_unique {u : Scan} (ht : Reaches lower a (t, [])) (hu : Reaches lower a (u, [])) :
    t = u := by
  have h := scan_of_reaches (s := a.1) ht le_rfl
  rw [scan_of_reaches (s := a.1) hu le_rfl] at h
  exact (Option.some.inj h).symm

theorem reaches_end (hb : Reaches lower a b) (ht : Reaches lower a (t, [])) :
    Reaches lower b (t, []) := by
  have hunique : Relator.RightUnique fun a b : Scan × Units => a.1.next lower a.2 = some b :=
    fun _ _ _ h h' => Option.some.inj (h.symm.trans h')
  rcases Relation.ReflTransGen.total_of_right_unique hunique hb ht with h | h
  · exact h
  · rcases Relation.ReflTransGen.cases_head h with rfl | ⟨d, hnext, -⟩
    · exact Relation.ReflTransGen.refl
    · cases hnext

theorem alone_of_agrees (hagrees : Agrees lower sql) (ht : Reaches lower ({}, sql) (t, []))
    (hfinish : t.finish = some slices) : ∀ slice ∈ slices, Alone lower slice := by
  have hreplayed := replayed_of_agrees hagrees ht
  obtain ⟨hended, hbody, ⟨-, rfl⟩ | ⟨hexec, hcomplete, rfl⟩⟩ := finish_cases hfinish
  · exact hreplayed.slices
  intro slice hmem
  rcases List.mem_append.mp hmem with hmem | hmem
  · exact hreplayed.slices slice hmem
  · -- the last slice lacks its semicolon, alone as well
    obtain rfl := List.mem_singleton.mp hmem
    obtain ⟨c, hc, hreaches⟩ := hreplayed.replay [] rfl
    rw [List.append_nil] at hreaches
    exact ⟨_, hreaches, (if_pos ⟨hended, hbody⟩).trans ((if_pos hexec).trans
      (if_pos (hc.semi.trans hcomplete)))⟩

theorem agrees_of_alone (ht : Reaches lower ({}, sql) (t, [])) (hfinish : t.finish = some slices)
    (halone : ∀ slice ∈ slices, Alone lower slice) : Agrees lower sql := by
  have hfinal : ∀ b, Reaches lower ({}, sql) b → ∀ slice ∈ b.1.statements, Alone lower slice := by
    intro b hb slice hmem
    obtain ⟨more, hmore⟩ := statements_of_reaches (reaches_end hb ht)
    have hkept : slice ∈ t.statements := hmore ▸ List.mem_append_left more hmem
    refine halone slice ?_
    obtain ⟨-, -, ⟨-, rfl⟩ | ⟨-, -, rfl⟩⟩ := finish_cases hfinish
    · exact hkept
    · exact List.mem_append_left _ hkept
  -- a slice cut in a trigger body is refused alone, so none was
  have hbody : ∀ b d, Reaches lower ({}, sql) b → Replayed lower b.1 b.2 →
      b.1.next lower b.2 = some d → d.1.statements ≠ b.1.statements →
        b.1.commands.triggerBody = false := by
    intro b d hb hreplayed hnext hcut
    by_contra htrue
    rw [Bool.not_eq_false] at htrue
    obtain ⟨u, hu, hrefused⟩ := hreplayed.cut hnext hcut
    rw [htrue, if_pos rfl] at hrefused
    obtain ⟨-, -, -, hd⟩ := cut_cases hnext hcut
    obtain ⟨v, hv, haccepted⟩ := hfinal d (hb.tail hnext) (b.1.pending ++ [0x3b]) (by simp [hd])
    rw [reaches_unique hu hv, haccepted] at hrefused
    cases hrefused
  have hreplayed : ∀ b, Reaches lower ({}, sql) b → Replayed lower b.1 b.2 := by
    intro b hb
    induction hb with
    | refl => exact replayed_start sql
    | tail hb hnext ih => exact ih.next hnext (hbody _ _ hb ih hnext)
  intro s rest hs hexec hstart
  rcases Relation.ReflTransGen.cases_head (reaches_end hs ht) with heq | ⟨d, hnext, -⟩
  · cases heq
  · refine hbody _ _ hs (hreplayed _ hs) hnext ?_
    obtain ⟨l, _, hlexeme, hstep⟩ := next_eq_some hnext
    obtain ⟨-, -, -, -, -, hcomplete, ⟨-, -, -, hstatements, -⟩ | ⟨hcut, -⟩⟩ := step_cases hstep
    · simp [hstatements]
    · rw [lexeme, if_pos rfl] at hlexeme
      cases hlexeme
      exact absurd ⟨rfl, hcomplete.trans hstart, hexec⟩ hcut

end Scan

/-! ### The first command -/

/-- The tokens of a text in which no PRAGMA stands open, without white space and comments. -/
def significant : ℕ → Units → List Lexeme
  | 0, _ => []
  | fuel + 1, text =>
    match lexeme false text with
    | none => []
    | some (.pragmaSpace, _, rest) | some (.space, _, rest) | some (.comment, _, rest) =>
      significant fuel rest
    | some (l, _, rest) => l :: significant fuel rest

/-- The tokens of the first statement of a text. -/
def opening (text : Units) : List Lexeme :=
  ((significant text.length text).dropWhile (· = .semicolon)).takeWhile (· ≠ .semicolon)

section FirstCommand

variable (lower : Units → Units)

/-- The first word, in lower case. -/
def leading : List Lexeme → Option Units
  | .word value :: _ => some (lower value)
  | _ => none

/-- A statement without EXPLAIN or EXPLAIN QUERY PLAN before it. -/
def dropExplain (tokens : List Lexeme) : List Lexeme :=
  if leading lower tokens = some (units "explain") then
    if leading lower (tokens.drop 1) = some (units "query") ∧
        leading lower (tokens.drop 2) = some (units "plan") then tokens.drop 3
    else tokens.drop 1
  else tokens

/-- The command that a text starts with, read on its own. -/
def firstCommand (text : Units) : Option Units := leading lower (dropExplain lower (opening text))

end FirstCommand

namespace Scan

variable {lower : Units → Units}

/-- A command is awaited, outside a trigger body. -/
structure Awaits (s : Scan) (explainPrefix : ℕ) : Prop where
  pragma : s.pragma = .none
  pending : s.commands.commandPending = true
  explain : s.commands.explainPrefix = explainPrefix
  body : s.commands.triggerBody = false

variable {fuel k : ℕ}

/-- The next token of the pass that is neither white space nor a comment. -/
theorem significant_cases (hs : s.Awaits k) (h : Reaches lower (s, text) (t, []))
    (hfuel : text.length ≤ fuel) :
    significant fuel text = [] ∨ ∃ (u u' : Scan) (l : Lexeme) (token rest : Units) (fuel' : ℕ),
      u.Awaits k ∧ u.step lower l token = some u' ∧ Reaches lower (u', rest) (t, []) ∧
        rest.length ≤ fuel' ∧ fuel' < fuel ∧ significant fuel text = l :: significant fuel' rest := by
  induction fuel generalizing s text with
  | zero => exact Or.inl rfl
  | succ fuel ih =>
    rcases Relation.ReflTransGen.cases_head h with heq | ⟨⟨s', rest⟩, hnext, hrest⟩
    · cases heq
      exact Or.inl rfl
    obtain ⟨l, token, hlexeme, hstep⟩ := next_eq_some hnext
    obtain ⟨happend, hne⟩ := lexeme_append hlexeme
    have hlength := congrArg List.length happend
    have hpos := List.length_pos_iff.mpr hne
    rw [List.length_append] at hlength
    simp only at hlength
    have hlexeme' : lexeme false text = some (l, token, rest) := by
      rw [← hlexeme, hs.pragma]
      rfl
    obtain ⟨commands, pragma, hadmit, hcommands, hpragma, -⟩ := step_cases hstep
    by_cases hblank : l = .pragmaSpace ∨ l = .space ∨ l = .comment
    · have hadmitted : commands = s.commands ∧ pragma = .none := by
        rcases hblank with rfl | rfl | rfl <;>
          · simp only [admit?, hs.pragma, if_true] at hadmit
            cases hadmit
            exact ⟨rfl, rfl⟩
      have hs' : s'.Awaits k := by
        obtain ⟨rfl, rfl⟩ := hadmitted
        exact ⟨hpragma, hcommands ▸ hs.pending, hcommands ▸ hs.explain, hcommands ▸ hs.body⟩
      have hskip : significant (fuel + 1) text = significant fuel rest := by
        rw [significant, hlexeme']
        rcases hblank with rfl | rfl | rfl <;> rfl
      rw [hskip]
      refine (ih hs' hrest (by omega)).imp_right ?_
      rintro ⟨u, u', l, token, rest, fuel', hu, hstep, hrest, hle, _, heq⟩
      exact ⟨u, u', l, token, rest, fuel', hu, hstep, hrest, hle, by omega, heq⟩
    · have htake : significant (fuel + 1) text = l :: significant fuel rest := by
        rw [significant, hlexeme']
        cases l <;> simp_all
      exact Or.inr ⟨s, s', l, token, rest, fuel, hs, hstep, hrest, by omega, by omega, htake⟩

/-- The word goes on with EXPLAIN QUERY PLAN. -/
def ExplainWord (explainPrefix : ℕ) (word : Units) : Prop :=
  (explainPrefix = 0 ∧ word = units "explain") ∨ (explainPrefix = 1 ∧ word = units "query") ∨
    (explainPrefix = 2 ∧ word = units "plan")

/-- A word where a command is awaited is held against the policy, but for the words of EXPLAIN. -/
theorem take_cases {c d : Commands} {word : Units} (hbody : c.triggerBody = false)
    (h : c.take word = some d) :
    (¬ExplainWord c.explainPrefix word ∧ word ∉ transactionOrExternalCommands) ∨
      (ExplainWord c.explainPrefix word ∧ d = { c with explainPrefix := c.explainPrefix + 1 }) := by
  simp only [Commands.take, hbody, Bool.false_eq_true, false_and, if_false] at h
  split_ifs at h with hbom hexplain hquery hplan hforbidden
  · cases h
    exact Or.inr ⟨Or.inl hexplain, by simp only [hexplain.1, hbody]⟩
  · cases h
    exact Or.inr ⟨Or.inr (Or.inl hquery), by simp only [hquery.1, hbody]⟩
  · cases h
    exact Or.inr ⟨Or.inr (Or.inr hplan), by simp only [hplan.1, hbody]⟩
  · refine Or.inl ⟨?_, by simpa using hforbidden⟩
    rintro (h | h | h)
    · exact hexplain h
    · exact hquery h
    · exact hplan h

theorem Awaits.word (hs : s.Awaits k) (h : s.step lower (.word value) text = some s') :
    (¬ExplainWord k (lower value) ∧ lower value ∉ transactionOrExternalCommands) ∨
      (ExplainWord k (lower value) ∧ s'.Awaits (k + 1)) := by
  obtain ⟨_, pragma, hadmit, hcommands, hpragma, -⟩ := step_cases h
  have hreserved : reserved lower (lower value) = false := by
    cases hreserved : reserved lower (lower value) with
    | false => rfl
    | true => simp [admit?, Scan.word, hreserved] at hadmit
  simp only [admit?, Scan.word, hreserved, hs.pragma, hs.pending, if_true, Bool.false_eq_true,
    if_false, Option.bind_eq_some_iff] at hadmit
  obtain ⟨d, htake, hadmit⟩ := hadmit
  rw [← hs.explain]
  refine (take_cases hs.body htake).imp_right fun h => ⟨h.1, ?_⟩
  obtain ⟨hwords, hd⟩ := h
  have hother : lower value ≠ units "begin" ∧ lower value ≠ units "pragma" := by
    rcases hwords with ⟨-, hword⟩ | ⟨-, hword⟩ | ⟨-, hword⟩ <;> rw [hword] <;> decide
  rw [if_neg fun hand => hother.2 hand.1] at hadmit
  cases hadmit
  have hnote : (d.note (lower value)).commandPending = d.commandPending ∧
      (d.note (lower value)).explainPrefix = d.explainPrefix ∧
        (d.note (lower value)).triggerBody = d.triggerBody := by
    simp [Commands.note, hd, hs.body, hother.1]
  rw [← hcommands] at hnote
  exact ⟨hpragma, hnote.1.trans (hd ▸ hs.pending), hnote.2.1.trans (by rw [hd]),
    hnote.2.2.trans (hd ▸ hs.body)⟩

theorem Awaits.semicolon (hs : s.Awaits k) (h : s.step lower .semicolon text = some s') :
    s'.Awaits 0 := by
  obtain ⟨_, pragma, hadmit, hcommands, hpragma, -⟩ := step_cases h
  simp only [admit?, hs.pragma] at hadmit
  cases hadmit
  exact ⟨hpragma, by rw [hcommands]; rfl, by rw [hcommands]; rfl, by rw [hcommands]; exact hs.body⟩

theorem opening_cases (hs : s.Awaits 0) (h : Reaches lower (s, text) (t, []))
    (hfuel : text.length ≤ fuel) :
    (significant fuel text).dropWhile (· = .semicolon) = [] ∨
      ∃ (u u' : Scan) (l : Lexeme) (token rest : Units) (fuel' : ℕ), l ≠ .semicolon ∧
      u.Awaits 0 ∧ u.step lower l token = some u' ∧ Reaches lower (u', rest) (t, []) ∧
        rest.length ≤ fuel' ∧
          (significant fuel text).dropWhile (· = .semicolon) = l :: significant fuel' rest := by
  induction fuel using Nat.strong_induction_on generalizing s text with
  | _ fuel ih =>
    rcases significant_cases hs h hfuel with hnil | ⟨u, u', l, token, rest, fuel', hu, hstep, hrest,
      hle, hlt, heq⟩
    · exact Or.inl (by rw [hnil]; rfl)
    by_cases hl : l = .semicolon
    · subst hl
      have hdrop : (significant fuel text).dropWhile (· = .semicolon) =
          (significant fuel' rest).dropWhile (· = .semicolon) := by
        rw [heq]
        rfl
      rw [hdrop]
      exact ih fuel' hlt (hu.semicolon hstep) hrest hle
    · refine Or.inr ⟨u, u', l, token, rest, fuel', hl, hu, hstep, hrest, hle, ?_⟩
      rw [heq, List.dropWhile_cons_of_neg (by simpa using hl)]

theorem leading_of_step {u u' : Scan} {token : Units} (hl : l ≠ .semicolon) (hu : u.Awaits k)
    (hstep : u.step lower l token = some u') :
    leading lower ((l :: significant fuel rest).takeWhile (· ≠ .semicolon)) = none ∨
      ∃ value, (l :: significant fuel rest).takeWhile (· ≠ .semicolon) =
          .word value :: (significant fuel rest).takeWhile (· ≠ .semicolon) ∧
        ((¬ExplainWord k (lower value) ∧ lower value ∉ transactionOrExternalCommands) ∨
          (ExplainWord k (lower value) ∧ u'.Awaits (k + 1))) := by
  rw [List.takeWhile_cons_of_pos (by simpa using hl)]
  cases l with
  | word value => exact Or.inr ⟨value, rfl, hu.word hstep⟩
  | _ => exact Or.inl rfl

theorem leading_cases (hs : s.Awaits k) (h : Reaches lower (s, text) (t, []))
    (hfuel : text.length ≤ fuel) :
    leading lower ((significant fuel text).takeWhile (· ≠ .semicolon)) = none ∨
      ∃ (value : Units) (s' : Scan) (rest : Units) (fuel' : ℕ),
        (significant fuel text).takeWhile (· ≠ .semicolon) =
            .word value :: (significant fuel' rest).takeWhile (· ≠ .semicolon) ∧
          Reaches lower (s', rest) (t, []) ∧ rest.length ≤ fuel' ∧
          ((¬ExplainWord k (lower value) ∧ lower value ∉ transactionOrExternalCommands) ∨
            (ExplainWord k (lower value) ∧ s'.Awaits (k + 1))) := by
  rcases significant_cases hs h hfuel with hnil | ⟨u, u', l, _, rest, fuel', hu, hstep, hrest,
    hle, -, heq⟩
  · exact Or.inl (by rw [hnil]; rfl)
  · rw [heq]
    by_cases hl : l = .semicolon
    · exact Or.inl (by rw [hl]; rfl)
    · refine (leading_of_step hl hu hstep).imp_right ?_
      rintro ⟨value, htokens, hword⟩
      exact ⟨value, u', rest, fuel', htokens, hrest, hle, hword⟩

theorem firstCommand_of_reaches (h : Reaches lower ({}, text) (t, [])) {command : Units}
    (hfirst : firstCommand lower text = some command) :
    command ∉ transactionOrExternalCommands := by
  have hstart : Awaits {} 0 := ⟨rfl, rfl, rfl, rfl⟩
  have hquery : units "query" ∉ transactionOrExternalCommands := by decide
  rw [firstCommand, opening] at hfirst
  rcases opening_cases hstart h le_rfl with hnil | ⟨s, _, l, _, _, _, hl, hs, hstep,
    hrest₁, hle₁, heq⟩
  · rw [hnil] at hfirst
    cases hfirst
  rw [heq] at hfirst
  rcases leading_of_step hl hs hstep with hnone | ⟨v, htokens, hother | ⟨hv, hs₁⟩⟩
  · rw [dropExplain, hnone, if_neg (by simp), hnone] at hfirst
    cases hfirst
  · -- the command is the first word
    rw [htokens, dropExplain, leading, if_neg fun he => hother.1 (Or.inl ⟨rfl, Option.some.inj he⟩),
      leading] at hfirst
    exact Option.some.inj hfirst ▸ hother.2
  obtain ⟨-, hv⟩ : 0 = 0 ∧ lower v = units "explain" := by simpa [ExplainWord] using hv
  rw [htokens, dropExplain, leading, hv, if_pos rfl] at hfirst
  simp only [List.drop_succ_cons, List.drop_zero] at hfirst
  rcases leading_cases hs₁ hrest₁ hle₁ with hnone | ⟨w, _, _, _, htokens₂, hrest₂, hle₂,
    hother | ⟨hw, hs₂⟩⟩
  · rw [hnone, if_neg (by simp), hnone] at hfirst
    cases hfirst
  · -- the command stands after EXPLAIN
    rw [htokens₂, leading, if_neg fun he =>
      hother.1 (Or.inr (Or.inl ⟨rfl, Option.some.inj he.1⟩)), leading] at hfirst
    exact Option.some.inj hfirst ▸ hother.2
  obtain ⟨-, hw⟩ : 1 = 1 ∧ lower w = units "query" := by simpa [ExplainWord] using hw
  rw [htokens₂, leading, hw] at hfirst
  simp only [List.drop_succ_cons, List.drop_zero, true_and] at hfirst
  rcases leading_cases hs₂ hrest₂ hle₂ with hnone | ⟨x, _, _, _, htokens₃, hrest₃, hle₃,
    hother | ⟨hx, hs₃⟩⟩
  · rw [hnone, if_neg (by simp), leading, hw] at hfirst
    exact Option.some.inj hfirst ▸ hquery
  · rw [htokens₃, leading, if_neg fun he => hother.1 (Or.inr (Or.inr ⟨rfl, Option.some.inj he⟩)),
      leading, hw] at hfirst
    exact Option.some.inj hfirst ▸ hquery
  -- the command stands after EXPLAIN QUERY PLAN
  obtain ⟨-, hx⟩ : 2 = 2 ∧ lower x = units "plan" := by simpa [ExplainWord] using hx
  rw [htokens₃, leading, hx, if_pos rfl] at hfirst
  simp only [List.drop_succ_cons, List.drop_zero] at hfirst
  rcases leading_cases hs₃ hrest₃ hle₃ with hnone | ⟨y, _, _, _, htokens₄, -, -,
    hother | ⟨hy, -⟩⟩
  · rw [hnone] at hfirst
    cases hfirst
  · rw [htokens₄, leading] at hfirst
    exact Option.some.inj hfirst ▸ hother.2
  · simp [ExplainWord] at hy

end Scan

/-! ### Soundness -/

section Soundness

variable {lower : Units → Units}

theorem alone_of_prepare {slice : Units} {maximum : Option ℕ}
    (h : prepareMigrationSql lower slice maximum = .ok [slice]) : Scan.Alone lower slice := by
  obtain ⟨-, -, hreaches, -⟩ := prepare_eq_ok h
  exact hreaches

/-- A slice of an accepted text that the pass accepts alone is accepted under the same maximum. -/
theorem prepare_of_alone {slice : Units} {maximum : Option ℕ}
    (h : prepareMigrationSql lower sql maximum = .ok slices) (hmem : slice ∈ slices)
    (halone : Scan.Alone lower slice) : prepareMigrationSql lower slice maximum = .ok [slice] := by
  obtain ⟨hzero, hmaximum, ⟨t, ht, hfinish⟩, hcapacity⟩ := prepare_eq_ok h
  obtain ⟨u, hu, hslice⟩ := halone
  have htext := (framed_of_reaches ht).text
  have hsub : ∀ c ∈ slice, c ∈ sql := by
    intro c hc
    rw [← htext]
    obtain ⟨-, -, ⟨-, rfl⟩ | ⟨-, -, rfl⟩⟩ := Scan.finish_cases hfinish
    · simp only [List.mem_append, List.mem_flatten]
      exact Or.inl (Or.inl ⟨slice, hmem, hc⟩)
    · rcases List.mem_append.mp hmem with hmem | hmem
      · simp only [List.mem_append, List.mem_flatten]
        exact Or.inl (Or.inl ⟨slice, hmem, hc⟩)
      · obtain rfl := List.mem_singleton.mp hmem
        simp only [List.mem_append]
        exact Or.inl (Or.inr hc)
  have hslicezero : slice.contains 0 = false := by
    simp only [List.contains_eq_mem, decide_eq_false_iff_not] at hzero ⊢
    exact fun hmem => hzero (hsub 0 hmem)
  rw [prepareMigrationSql, hslicezero, hmaximum, Scan.scan_of_reaches hu le_rfl]
  simp only [Bool.false_eq_true, if_false, Option.bind_some, hslice]
  cases maximum with
  | none => rfl
  | some m =>
    have hle := hcapacity m rfl slice hmem
    have hfits : decide (m < byteLength slice) = false := decide_eq_false (by omega)
    simp only [List.find?, hfits]

/-- **The policy, slice by slice.**  The slices of an accepted text are all accepted alone, as they
are, and start with no forbidden command, just where the automata agree. -/
theorem sound_iff_agrees (lower : Units → Units) (sql : Units) (maximum : Option ℕ)
    (slices : List Units) (h : prepareMigrationSql lower sql maximum = .ok slices) :
    (∀ slice ∈ slices, (∀ command, firstCommand lower slice = some command →
        command ∉ transactionOrExternalCommands) ∧
      prepareMigrationSql lower slice maximum = .ok [slice]) ↔ Scan.Agrees lower sql := by
  obtain ⟨-, -, ⟨t, ht, hfinish⟩, -⟩ := prepare_eq_ok h
  constructor
  · intro hsound
    exact Scan.agrees_of_alone ht hfinish fun slice hmem => alone_of_prepare (hsound slice hmem).2
  · intro hagrees slice hmem
    have halone := Scan.alone_of_agrees hagrees ht hfinish slice hmem
    refine ⟨?_, prepare_of_alone h hmem halone⟩
    obtain ⟨u, hu, -⟩ := halone
    exact fun command => Scan.firstCommand_of_reaches hu

/-- Two statements, the first a trigger. -/
theorem sound_iff_agrees_trigger :
    prepareMigrationSql asciiLower (units "CREATE TRIGGER t BEGIN SELECT 1; END; SELECT 2") =
      .ok [units "CREATE TRIGGER t BEGIN SELECT 1; END;", units " SELECT 2"] ∧
    ((∀ slice ∈ [units "CREATE TRIGGER t BEGIN SELECT 1; END;", units " SELECT 2"],
      (∀ command, firstCommand asciiLower slice = some command →
        command ∉ transactionOrExternalCommands) ∧
      prepareMigrationSql asciiLower slice none = .ok [slice]) ↔
        Scan.Agrees asciiLower (units "CREATE TRIGGER t BEGIN SELECT 1; END; SELECT 2")) := by
  have h : prepareMigrationSql asciiLower (units "CREATE TRIGGER t BEGIN SELECT 1; END; SELECT 2") =
      .ok [units "CREATE TRIGGER t BEGIN SELECT 1; END;", units " SELECT 2"] := by decide +kernel
  exact ⟨h, sound_iff_agrees asciiLower _ none _ h⟩

/-- END alone is cut out of a text that is accepted. -/
theorem not_sound :
    ¬∀ (lower : Units → Units) (sql : Units) (maximum : Option ℕ) (slices : List Units),
      prepareMigrationSql lower sql maximum = .ok slices → ∀ slice ∈ slices,
        (∀ command, firstCommand lower slice = some command →
          command ∉ transactionOrExternalCommands) ∧
        prepareMigrationSql lower slice maximum = .ok [slice] := by
  intro h
  have hslices : prepareMigrationSql asciiLower (units "CREATE [x] TRIGGER BEGIN; END;") =
      .ok [units "CREATE [x] TRIGGER BEGIN;", units " END;"] := by decide +kernel
  have hfirst : firstCommand asciiLower (units " END;") = some (units "end") := by decide +kernel
  have hend := (h _ _ _ _ hslices (units " END;") (by simp)).1 _ hfirst
  exact hend (by decide)

end Soundness

end Takoserver.Migrations
