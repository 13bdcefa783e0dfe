import BasicComputer.Proofs.Moving
import BasicComputer.Proofs.SourceLines
import BasicComputer.Proofs.Words

/-!
# Layout does not matter

The words of a text, line by line and without the empty lines, are all that counts. Where the words
stand on their lines, what separates them, how many lines are empty and what the comments say has no
influence on the labels and on the words that a text is assembled to, nor on what is wrong with it.

The lexer looks at line numbers once, since a mark of indirection is one only on the line of its
address, and the parser once more, to find the lines. Both only compare neighbours. So two texts
with the same words have the same kinds of tokens and the same groups of them, in other places.

## Equality up to places

The texts compared have no tokens in common. Their tokens have the same words and kinds, and this is
said as an equation between two lists in which all places have been made one. No relation between
tokens has to be carried along, and a function that does not look at places takes equal lists to
equal results.

## Errors as well

An error names a token by its text and says where it is. The second part is lost with the places, so
errors are compared by their reasons. A character that belongs in no word is the exception: it is
found before there are words, and of two texts with the same words both have one or neither has.
-/

namespace BasicComputer

/-- The words of a text, line by line, without the empty lines. -/
def wordLines (source : String) : List (List (List Char)) :=
  ((codeLines source).map CodeLine.words).filter (!·.isEmpty)

/-- All tokens in one place. -/
def Moving.nowhere : Moving := ⟨fun _ ↦ 0, fun _ ↦ 0, fun _ ↦ ""⟩

/-! ## Kinds -/

namespace Token

/-- Tokens with the same text and kind are the same up to their places. -/
theorem moved_nowhere_eq {t t' : Token} (htext : t.text = t'.text) (hkind : t.kind = t'.kind) :
    t.moved .nowhere = t'.moved .nowhere :=
  congrArg₂ (fun text kind ↦ (⟨⟨⟨0, 0⟩, text, ""⟩, kind⟩ : Token)) htext hkind

section Kinds

variable {previous previous' : Option Token}

/-- What a lexeme is depends on the text and kind of the token before, and on whether this is on the
same line. -/
theorem kindOf_congr {x x' : Lexeme}
    (hprevious : previous.map (moved .nowhere) = previous'.map (moved .nowhere))
    (htext : x.text = x'.text)
    (hline : (∃ p ∈ previous, p.line = x.line) ↔ ∃ p ∈ previous', p.line = x'.line) :
    kindOf previous x = kindOf previous' x' := by
  cases previous with
  | none =>
    cases previous' with
    | none => rw [kindOf, kindOf, htext]
    | some p' => cases hprevious
  | some p =>
    cases previous' with
    | none => cases hprevious
    | some p' =>
      have hmoved : p.moved .nowhere = p'.moved .nowhere := Option.some.inj hprevious
      have hkeyword : p.keyword? = p'.keyword? := (congrArg keyword? hmoved :)
      have hkind : p.kind = p'.kind := (congrArg kind hmoved :)
      have hsame : p.line = x.line ↔ p'.line = x'.line := by simpa using hline
      simp only [kindOf, htext, hkeyword, hkind, hsame]

theorem classify_congr {xs xs' : List Lexeme} {n n' : Nat} (hxs : ∀ x ∈ xs, x.line = n)
    (hxs' : ∀ x ∈ xs', x.line = n') (htexts : xs.map (·.text) = xs'.map (·.text))
    (hprevious : previous.map (moved .nowhere) = previous'.map (moved .nowhere))
    (hline : (∃ p ∈ previous, p.line = n) ↔ ∃ p ∈ previous', p.line = n') :
    (classify previous xs).map (moved .nowhere) =
      (classify previous' xs').map (moved .nowhere) := by
  induction xs generalizing xs' previous previous' with
  | nil =>
    obtain rfl : xs' = [] := by simpa using htexts.symm
    rfl
  | cons x xs ih =>
    obtain ⟨x', xs', rfl⟩ : ∃ x' rest, xs' = x' :: rest := by
      cases xs' with
      | nil => cases htexts
      | cons x' rest => exact ⟨x', rest, rfl⟩
    obtain ⟨htext, htexts⟩ := List.cons.inj htexts
    rw [List.forall_mem_cons] at hxs hxs'
    have hkind : kindOf previous x = kindOf previous' x' := by
      apply kindOf_congr hprevious htext
      rwa [hxs.1, hxs'.1]
    have hmoved : moved .nowhere ⟨x, kindOf previous x⟩ =
        moved .nowhere ⟨x', kindOf previous' x'⟩ :=
      moved_nowhere_eq htext hkind
    rw [classify, classify, List.map_cons, List.map_cons, hmoved]
    -- the next token is on the line of this one in both cases
    refine congrArg _ (ih hxs.2 hxs'.2 htexts (congrArg some hmoved) ?_)
    exact iff_of_true ⟨_, rfl, hxs.1⟩ ⟨_, rfl, hxs'.1⟩

end Kinds

theorem classify_append (previous : Option Token) (xs ys : List Lexeme) :
    classify previous (xs ++ ys) =
      classify previous xs ++ classify ((classify previous xs).getLast?.or previous) ys := by
  induction xs generalizing previous with
  | nil => rfl
  | cons x xs ih =>
    rw [List.cons_append, classify, classify, ih, List.cons_append, List.getLast?_cons]
    cases (classify (some ⟨x, kindOf previous x⟩) xs).getLast? <;> rfl

end Token

/-! ## Groups -/

/-- The tokens of a line are a group, and the kinds of those below depend on the last of them. -/
theorem exists_groupByLine_classify {c : CodeLine} {cs : List CodeLine} (hne : c.lexemes ≠ [])
    (hbelow : ∀ d ∈ cs, c.number < d.number) (previous : Option Token) :
    ∃ first others last, Token.classify previous c.lexemes = first :: others ∧
      (first :: others).getLast? = some last ∧ last.line = c.number ∧
      groupByLine (Token.classify previous ((c :: cs).flatMap CodeLine.lexemes)) =
        (first, others) ::
          groupByLine (Token.classify (some last) (cs.flatMap CodeLine.lexemes)) := by
  have hmap := Token.map_toLexeme_classify previous c.lexemes
  obtain ⟨first, others, hts⟩ : ∃ first others,
      Token.classify previous c.lexemes = first :: others := by
    refine List.exists_cons_of_ne_nil fun hnil ↦ hne ?_
    rw [← hmap, hnil, List.map_nil]
  obtain ⟨last, hlast⟩ : ∃ last, (first :: others).getLast? = some last :=
    ⟨_, List.getLast?_eq_some_getLast (List.cons_ne_nil first others)⟩
  rw [hts] at hmap
  have hmem : last.toLexeme ∈ c.lexemes :=
    hmap ▸ List.mem_map_of_mem (List.mem_of_getLast? hlast)
  refine ⟨first, others, last, hts, hlast, (CodeLine.line_of_mem_lexemes hmem).1, ?_⟩
  rw [List.flatMap_cons, Token.classify_append, hts, hlast, Option.some_or]
  exact groupByLine_of_lexemes hmap (Token.map_toLexeme_classify _ _) hbelow

/-- The lines of one text have the kinds of tokens that the lines of the other have, if they have
the same words. -/
theorem map_groupByLine_classify {cs cs' : List CodeLine}
    (h : List.Forall₂ (fun c c' ↦ c.lexemes.map (·.text) = c'.lexemes.map (·.text)) cs cs')
    (hne : ∀ c ∈ cs, c.lexemes ≠ []) (hcs : cs.Pairwise fun c d ↦ c.number < d.number)
    (hcs' : cs'.Pairwise fun c d ↦ c.number < d.number) {previous previous' : Option Token}
    (hprevious : previous.map (Token.moved .nowhere) = previous'.map (Token.moved .nowhere))
    (habove : ∀ p ∈ previous, ∀ c ∈ cs, p.line < c.number)
    (habove' : ∀ p ∈ previous', ∀ c ∈ cs', p.line < c.number) :
    (groupByLine (Token.classify previous (cs.flatMap CodeLine.lexemes))).map
        (Prod.map (Token.moved .nowhere) (List.map (Token.moved .nowhere))) =
      (groupByLine (Token.classify previous' (cs'.flatMap CodeLine.lexemes))).map
        (Prod.map (Token.moved .nowhere) (List.map (Token.moved .nowhere))) := by
  induction h generalizing previous previous' with
  | nil => rfl
  | @cons c c' cs cs' htexts _ ih =>
    rw [List.forall_mem_cons] at hne
    rw [List.pairwise_cons] at hcs hcs'
    have hne' : c'.lexemes ≠ [] := by
      intro hnil
      rw [hnil, List.map_nil, List.map_eq_nil_iff] at htexts
      exact hne.1 htexts
    -- no line starts behind a token of its own
    have hline : (∃ p ∈ previous, p.line = c.number) ↔ ∃ p ∈ previous', p.line = c'.number := by
      refine iff_of_false ?_ ?_
      · rintro ⟨p, hp, hpc⟩
        exact Nat.ne_of_lt (habove p hp c List.mem_cons_self) hpc
      · rintro ⟨p, hp, hpc⟩
        exact Nat.ne_of_lt (habove' p hp c' List.mem_cons_self) hpc
    have hkinds := Token.classify_congr (fun x hx ↦ (CodeLine.line_of_mem_lexemes hx).1)
      (fun x hx ↦ (CodeLine.line_of_mem_lexemes hx).1) htexts hprevious hline
    obtain ⟨first, others, last, hts, hlast, hlastLine, hgroups⟩ :=
      exists_groupByLine_classify hne.1 hcs.1 previous
    obtain ⟨first', others', last', hts', hlast', hlastLine', hgroups'⟩ :=
      exists_groupByLine_classify hne' hcs'.1 previous'
    rw [hts, hts'] at hkinds
    have hlasts := congrArg List.getLast? hkinds
    rw [List.getLast?_map, List.getLast?_map, hlast, hlast'] at hlasts
    obtain ⟨hfirst, hothers⟩ := List.cons.inj hkinds
    rw [hgroups, hgroups', List.map_cons, List.map_cons]
    refine congrArg₂ List.cons (congrArg₂ Prod.mk hfirst hothers) ?_
    refine ih hne.2 hcs.2 hcs'.2 hlasts (fun p hp d hd ↦ ?_) fun p hp d hd ↦ ?_
    · obtain rfl : last = p := Option.some.inj hp
      rw [hlastLine]
      exact hcs.1 d hd
    · obtain rfl : last' = p := Option.some.inj hp
      rw [hlastLine']
      exact hcs'.1 d hd

/-! ## Texts with the same words -/

section Texts

variable {source source' : String}

theorem CodeLine.map_text_lexemes_eq {c : CodeLine} (h : c.IsClean) :
    c.lexemes.map (·.text) = c.words.map String.ofList := by
  rw [← map_text_lexemes h, List.map_map]
  exact List.map_congr_left fun x _ ↦ String.ofList_toList.symm

theorem exists_tokenize_iff_wordLines : (∃ tokens, tokenize source = .ok tokens) ↔
    ∀ ws ∈ wordLines source, ∀ w ∈ ws, IsWord w := by
  simp only [exists_tokenize_iff, CodeLine.error?_eq_none_iff, wordLines, List.mem_filter,
    List.mem_map]
  constructor
  · rintro h ws ⟨⟨c, hc, rfl⟩, -⟩
    exact h c hc
  · intro h c hc
    by_cases hne : c.words = []
    · rw [hne]
      exact List.forall_mem_nil _
    · exact h c.words ⟨⟨c, hc, rfl⟩, by simp [hne]⟩

theorem map_words_occupied (h : ∀ c ∈ codeLines source, c.error? = none) :
    (occupied (codeLines source)).map CodeLine.words = wordLines source := by
  rw [occupied, wordLines, List.filter_map]
  refine congrArg _ (List.filter_congr fun c hc ↦ ?_)
  have hclean : c.IsClean := fun w hw ↦ (CodeLine.error?_eq_none_iff.mp (h c hc) w hw).chars
  rw [Function.comp_apply, ← CodeLine.map_text_lexemes hclean, List.isEmpty_map]

theorem map_map_text_occupied (h : ∀ c ∈ codeLines source, c.error? = none) :
    (occupied (codeLines source)).map (fun c ↦ c.lexemes.map (·.text)) =
      (wordLines source).map (List.map String.ofList) := by
  rw [← map_words_occupied h, List.map_map]
  refine List.map_congr_left fun c hc ↦ ?_
  have hwords := CodeLine.error?_eq_none_iff.mp (h c (List.mem_filter.mp hc).1)
  exact CodeLine.map_text_lexemes_eq fun w hw ↦ (hwords w hw).chars

/-- Texts with the same words have the same kinds of tokens in the same groups. -/
theorem map_groupByLine_of_wordLines (hwords : wordLines source = wordLines source')
    {tokens tokens' : List Token} (ht : tokenize source = .ok tokens)
    (ht' : tokenize source' = .ok tokens') :
    (groupByLine tokens).map (Prod.map (Token.moved .nowhere) (List.map (Token.moved .nowhere))) =
      (groupByLine tokens').map
        (Prod.map (Token.moved .nowhere) (List.map (Token.moved .nowhere))) := by
  obtain ⟨hclean, hlexemes, hclassified⟩ := tokenize_eq_ok_iff.mp ht
  obtain ⟨hclean', hlexemes', hclassified'⟩ := tokenize_eq_ok_iff.mp ht'
  have hsame : List.Forall₂ (fun c c' ↦ c.lexemes.map (·.text) = c'.lexemes.map (·.text))
      (occupied (codeLines source)) (occupied (codeLines source')) := by
    have htexts := map_map_text_occupied hclean
    rw [hwords, ← map_map_text_occupied hclean', ← List.forall₂_eq_eq_eq,
      List.forall₂_map_left_iff, List.forall₂_map_right_iff] at htexts
    exact htexts
  rw [← Token.classify_of_classified hclassified, ← Token.classify_of_classified hclassified',
    hlexemes, hlexemes', ← flatMap_lexemes_occupied, ← flatMap_lexemes_occupied (codeLines source')]
  refine map_groupByLine_classify hsame (fun c hc ↦ ?_) ((pairwise_codeLines source).filter _)
    ((pairwise_codeLines source').filter _) rfl (by simp) (by simp)
  simpa using (List.mem_filter.mp hc).2

end Texts

/-! ## Assembly -/

/-- Whether two texts are rejected for the same reason, wherever it is found. What no token can be
made of has no reason but the characters themselves. -/
inductive AssemblyError.Alike : AssemblyError → AssemblyError → Prop
  | lexical (e e' : LexError) : Alike (lexical e) (lexical e')
  | grammatical {e e' : SyntaxError} (h : e.fault = e'.fault) :
      Alike (grammatical e) (grammatical e')
  | semantic {e e' : SemanticError} (h : e.fault = e'.fault) : Alike (semantic e) (semantic e')

/-- Whether two programs are the same words at the same addresses, instructions and data alike. -/
structure Program.Alike (p q : Program) : Prop where
  instructions : p.instructions.map (fun i ↦ (i.origin, i.word)) =
    q.instructions.map fun i ↦ (i.origin, i.word)
  data : p.data = q.data

/-- Whether two texts are assembled to the same, or rejected for the same reason. -/
inductive SameOutcome :
    Except AssemblyError Program → Except AssemblyError Program → Prop
  | ok {p q : Program} (h : p.Alike q) : SameOutcome (.ok p) (.ok q)
  | error {e e' : AssemblyError} (h : e.Alike e') : SameOutcome (.error e) (.error e')

section Assembly

variable {m : Moving}

theorem SyntaxError.fault_of_moved {e e' : SyntaxError} (h : e.moved m = e'.moved m) :
    e.fault = e'.fault :=
  (congrArg fault h :)

theorem SemanticError.fault_of_moved {e e' : SemanticError} (h : e.moved m = e'.moved m) :
    e.fault = e'.fault :=
  (congrArg fault h :)

theorem AssemblyError.alike_of_moved {e e' : AssemblyError} (h : e.moved m = e'.moved m) :
    e.Alike e' := by
  cases e with
  | lexical e =>
    cases e' with
    | lexical e' => exact .lexical e e'
    | grammatical _ | semantic _ => exact AssemblyError.noConfusion h
  | grammatical e =>
    cases e' with
    | grammatical e' => exact .grammatical (SyntaxError.fault_of_moved (grammatical.inj h))
    | lexical _ | semantic _ => exact AssemblyError.noConfusion h
  | semantic e =>
    cases e' with
    | semantic e' => exact .semantic (SemanticError.fault_of_moved (semantic.inj h))
    | lexical _ | grammatical _ => exact AssemblyError.noConfusion h

theorem Program.alike_of_moved {p q : Program} (h : p.moved m = q.moved m) : p.Alike q := by
  refine ⟨?_, (congrArg Program.data h :)⟩
  have hwords := congrArg (fun p ↦ p.instructions.map fun i ↦ (i.origin, i.word)) h
  dsimp only [moved] at hwords
  rwa [List.map_map, List.map_map] at hwords

theorem sameOutcome_of_moved {o o' : Except AssemblyError Program}
    (h : (o.map (Program.moved m)).mapError (AssemblyError.moved m) =
      (o'.map (Program.moved m)).mapError (AssemblyError.moved m)) : SameOutcome o o' := by
  rcases eq_cases_of_map h with ⟨e, e', rfl, rfl, he⟩ | ⟨p, q, rfl, rfl, hp⟩
  · exact .error (AssemblyError.alike_of_moved he)
  · exact .ok (Program.alike_of_moved hp)

/-- Both passes give the same for lines that are the same up to their places. -/
theorem assembleLines_congr {tokens tokens' : List Token} {lines lines' : List Line}
    (htokens : tokens.map (Token.moved m) = tokens'.map (Token.moved m))
    (hlines : lines.map (Line.moved m) = lines'.map (Line.moved m))
    (reported reported' : List Entry) :
    (assembleLines tokens lines reported).symbols =
        (assembleLines tokens' lines' reported').symbols ∧
      SameOutcome (assembleLines tokens lines reported).outcome
        (assembleLines tokens' lines' reported').outcome := by
  obtain ⟨houtcome, hsymbols⟩ := assembleLines_moved m tokens lines reported []
  obtain ⟨houtcome', hsymbols'⟩ := assembleLines_moved m tokens' lines' reported' []
  rw [htokens, hlines] at houtcome hsymbols
  exact ⟨hsymbols.symm.trans hsymbols', sameOutcome_of_moved (houtcome.symm.trans houtcome')⟩

theorem checkEnd_congr (hm : m.position ⟨0, 0⟩ = ⟨0, 0⟩) {tokens tokens' : List Token}
    (htokens : tokens.map (Token.moved m) = tokens'.map (Token.moved m)) :
    (checkEnd tokens).mapError (SemanticError.moved m) =
      (checkEnd tokens').mapError (SemanticError.moved m) := by
  rw [← checkEnd_moved hm, ← checkEnd_moved hm, htokens]

variable {source source' : String}

/-- Texts whose tokens are in the same groups, up to their places, are assembled to the same. -/
theorem assemble_congr {tokens tokens' : List Token} (ht : tokenize source = .ok tokens)
    (ht' : tokenize source' = .ok tokens') (hm : m.position ⟨0, 0⟩ = ⟨0, 0⟩)
    (hgroups : (groupByLine tokens).map (Prod.map (Token.moved m) (List.map (Token.moved m))) =
      (groupByLine tokens').map (Prod.map (Token.moved m) (List.map (Token.moved m)))) :
    (assemble source).symbols = (assemble source').symbols ∧
      SameOutcome (assemble source).outcome (assemble source').outcome := by
  have htokens : tokens.map (Token.moved m) = tokens'.map (Token.moved m) := by
    have hflat := congrArg (List.flatMap fun g : Token × List Token ↦ g.1 :: g.2) hgroups
    rw [List.flatMap_map, List.flatMap_map] at hflat
    rw [← flatMap_groupByLine tokens, ← flatMap_groupByLine tokens', List.map_flatMap,
      List.map_flatMap]
    exact hflat
  have hparse := mapM_read_moved m (groupByLine tokens)
  rw [hgroups, mapM_read_moved, ← parse, ← parse] at hparse
  have hend : ((checkEnd tokens).map id).mapError (SemanticError.moved m) =
      ((checkEnd tokens').map id).mapError (SemanticError.moved m) := by
    rw [Except.map_id, id, id, checkEnd_congr hm htokens]
  rw [assemble, assemble, assembleText, assembleText, ht, ht']
  dsimp only
  rcases eq_cases_of_map hparse.symm with ⟨e, e', hp, hp', he⟩ | ⟨lines, lines', hp, hp', hlines⟩
  · rw [hp, hp']
    exact ⟨rfl, .error (.grammatical (SyntaxError.fault_of_moved he))⟩
  rw [hp, hp']
  dsimp only
  rcases eq_cases_of_map hend with ⟨e, e', hc, hc', he⟩ | ⟨_, _, hc, hc', -⟩
  · rw [hc, hc']
    exact ⟨rfl, .error (.semantic (SemanticError.fault_of_moved he))⟩
  · rw [hc, hc']
    exact assembleLines_congr htokens hlines _ _

/-- **Layout does not matter.** Two texts with the same words on the lines that are not empty are
both assembled, to the same words at the same addresses, or both rejected, for the same reason. In
either case the same labels are defined. -/
theorem assemble_wordLines (h : wordLines source = wordLines source') :
    (assemble source).symbols = (assemble source').symbols ∧
      SameOutcome (assemble source).outcome (assemble source').outcome := by
  have hboth : (∃ tokens, tokenize source = .ok tokens) ↔
      ∃ tokens, tokenize source' = .ok tokens := by
    rw [exists_tokenize_iff_wordLines, exists_tokenize_iff_wordLines, h]
  cases ht : tokenize source with
  | ok tokens =>
    obtain ⟨tokens', ht'⟩ := hboth.mp ⟨tokens, ht⟩
    exact assemble_congr ht ht' rfl (map_groupByLine_of_wordLines h ht ht')
  | error e =>
    cases ht' : tokenize source' with
    | ok tokens' =>
      obtain ⟨tokens, hok⟩ := hboth.mpr ⟨tokens', ht'⟩
      rw [ht] at hok
      cases hok
    | error e' =>
      rw [assemble, assemble, assembleText, assembleText, ht, ht']
      exact ⟨rfl, .error (.lexical e e')⟩

end Assembly

/-- A text in one layout. -/
def neatText : String := "ORG 10\nX, LDA Y I // load\nHLT\nY, DEC -5\nEND"

/-- The same text in another one. -/
def untidyText : String := "\n,org,10,\n// start\n  x lda, y , i\n\thlt//\n,\ny,,dec -5\n\nend\n"

theorem assemble_wordLines_untidy :
    wordLines neatText = wordLines untidyText ∧
    (assemble neatText).outcome =
      .ok ⟨[⟨16, 0xA012, "X, LDA Y I", 2⟩, ⟨17, 0x7001, "HLT", 3⟩], [⟨18, 0xFFFB⟩]⟩ ∧
    (assemble neatText).symbols = (assemble untidyText).symbols ∧
    SameOutcome (assemble neatText).outcome (assemble untidyText).outcome := by
  have h : wordLines neatText = wordLines untidyText := by decide +kernel
  obtain ⟨hsymbols, houtcome⟩ := assemble_wordLines h
  exact ⟨h, rfl, hsymbols, houtcome⟩

end BasicComputer
