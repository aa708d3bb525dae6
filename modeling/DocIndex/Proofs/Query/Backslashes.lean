/-
Which queries are read back from their text.

A phrase with a backslash is not, wherever it stands and whatever stands around it.  It is
printed with one backslash for each of its backslashes, but the reader takes every backslash in
quotes for the sign that the next character is to be kept, so that a text in which the phrase is
read has two for each.  What is lost where it is printed may be made up for nowhere else, since no
other token is read from fewer backslashes than it is printed with.  Counted over a whole text,
the tokens of a query need as many backslashes as the query is printed with, and on top of that
one for each backslash of a phrase, which are not there.
-/
import DocIndex.Proofs.Query.Rereading

namespace DocIndex.Query

/-! ### Backslashes -/

def backslashes (text : String) : Nat := text.toList.count '\\'

theorem backslashes_append (a b : String) :
    backslashes (a ++ b) = backslashes a + backslashes b := by
  rw [backslashes, String.toList_append, List.count_append]
  rfl

theorem backslashes_parenthesised (text : String) :
    backslashes ("(" ++ text ++ ")") = backslashes text := by
  have hopen : backslashes "(" = 0 := by decide
  have hclose : backslashes ")" = 0 := by decide
  rw [backslashes_append, backslashes_append, hopen, hclose, Nat.zero_add, Nat.add_zero]

theorem backslashes_eq_zero {text : String} : backslashes text = 0 ↔ '\\' ∉ text.toList :=
  List.count_eq_zero

theorem backslashes_of_digits {text : String} (h : ∀ c ∈ text.toList, c.isDigit = true) :
    backslashes text = 0 :=
  backslashes_eq_zero.mpr fun hin => absurd (h _ hin) (by decide)

/-- A time is printed in digits with marks between them. -/
theorem backslashes_time (m : Moment) (precision : Precision) :
    backslashes (Value.time m precision).write = 0 := by
  have hpadded : ∀ width n, backslashes (Moment.padded width n) = 0 := fun width n =>
    backslashes_of_digits (Moment.isDigit_padded width n)
  have hmarks : backslashes "" = 0 ∧ backslashes "-" = 0 ∧ backslashes "+" = 0 ∧
      backslashes "." = 0 ∧ backslashes ":" = 0 ∧ backslashes "T" = 0 := by decide
  obtain ⟨hnothing, hdash, hplus, hpoint, hcolon, hletter⟩ := hmarks
  cases precision with
  | day =>
      show backslashes (Value.writeDay m) = 0
      simp only [Value.writeDay, Value.writeYear, backslashes_append, apply_ite backslashes,
        hpadded, hdash, ite_self, Nat.add_zero]
  | instant =>
      show backslashes m.write = 0
      simp only [Moment.write, Moment.writeLocal, Moment.writeYear, Moment.writeFraction,
        Moment.writeOffset, backslashes_append, apply_ite backslashes, hpadded, hnothing, hdash,
        hplus, hpoint, hcolon, hletter, ite_self, Nat.add_zero]

theorem backslashes_integer (n : Int) : backslashes (toString n) = 0 := by
  have hdigits : '\\' ∉ Nat.toDigits 10 n.natAbs := fun hin =>
    absurd (Nat.isDigit_of_mem_toDigits (by decide) (by decide) hin) (by decide)
  rw [backslashes_eq_zero, toList_toString]
  split
  · exact List.not_mem_cons_of_ne_of_not_mem (by decide) hdigits
  · exact hdigits

theorem backslashes_phrase (phrase : String) : backslashes (Value.writePhrase phrase)
    = backslashes phrase + phrase.toList.count '\x22' := by
  have hescape : ∀ text : List Char, (text.flatMap Lexer.escape).count '\\'
      = text.count '\\' + text.count '\x22' := by
    intro text
    induction text with
    | nil => rfl
    | cons c more ih =>
        rw [List.flatMap_cons, List.count_append, ih, Lexer.escape]
        by_cases hquote : c = '\x22'
        · subst hquote
          simp
          omega
        · simp [List.count_cons, hquote]
          omega
  rw [backslashes, Value.writePhrase, String.toList_ofList, List.cons_append, List.count_cons,
    List.count_append]
  exact hescape phrase.toList

/-! ### What tokens are read from -/

namespace Lexer

/-- How many backslashes there are at least in a text that is read as the token. -/
def needed : Token → Nat
  | .word text => backslashes text
  | .relative t => backslashes t.raw
  | .quoted phrase => 2 * backslashes phrase + phrase.toList.count '\x22'
  | _ => 0

def neededByAll (tokens : List Token) : Nat := (tokens.map needed).sum

theorem neededByAll_cons (token : Token) (tokens : List Token) :
    neededByAll (token :: tokens) = needed token + neededByAll tokens := rfl

theorem neededByAll_append (a b : List Token) :
    neededByAll (a ++ b) = neededByAll a + neededByAll b := by
  rw [neededByAll, List.map_append, List.sum_append]
  rfl

/-- A backslash of a phrase is read from two, and a quote in it from one with a quote. -/
theorem readQuoted?_needed {text phrase rest : List Char}
    (h : readQuoted? text = some (phrase, rest)) : rest <:+ text ∧
      2 * phrase.count '\\' + phrase.count '\x22' + rest.count '\\' ≤ text.count '\\' := by
  induction text using readQuoted?.induct generalizing phrase with
  | case1 => cases h
  | case2 => cases h
  | case3 c more ih =>
      rw [readQuoted?] at h
      obtain ⟨⟨inner, left⟩, hinner, heq⟩ := Option.map_eq_some_iff.mp h
      cases heq
      obtain ⟨hsuffix, hcount⟩ := ih hinner
      refine ⟨hsuffix.trans ((List.suffix_cons _ _).trans (List.suffix_cons _ _)), ?_⟩
      by_cases hback : c = '\\'
      · subst hback
        simp
        omega
      · simp only [List.count_cons, beq_iff_eq, hback, if_false]
        simp
        split <;> omega
  | case4 c more hlast hmore hquote =>
      rw [readQuoted?, if_pos hquote] at h
      · cases h
        rw [beq_iff_eq.mp hquote]
        exact ⟨List.suffix_cons _ _, by simp⟩
      · exact hlast
      · exact hmore
  | case5 c more hlast hmore hquote ih =>
      rw [readQuoted?, if_neg hquote] at h
      · obtain ⟨⟨inner, left⟩, hinner, heq⟩ := Option.map_eq_some_iff.mp h
        cases heq
        obtain ⟨hsuffix, hcount⟩ := ih hinner
        have hback : c ≠ '\\' := by
          rintro rfl
          cases more with
          | nil => exact hlast rfl rfl
          | cons d others => exact hmore d others rfl rfl
        refine ⟨hsuffix.trans (List.suffix_cons _ _), ?_⟩
        simpa [List.count_cons, hback, beq_iff_eq.not.mp hquote] using hcount
      · exact hlast
      · exact hmore

theorem needed_readRun {run : List Char} (hrun : IsRun run) :
    needed (readRun run).1 ≤ run.count '\\' := by
  rcases readRun_cases hrun with ⟨t, htoken, hraw⟩ | ⟨n, htoken, -⟩ | ⟨x, htoken⟩ | htoken
  · rw [htoken, needed, backslashes, hraw]
  · rw [htoken]
    exact Nat.zero_le _
  · rw [htoken]
    exact Nat.zero_le _
  · rw [htoken]
    rcases keywordOrWord_cases run with hword | hkeyword
    · rw [hword, needed, backslashes, String.toList_ofList]
    · have hfree : ∀ keyword ∈ keywords, needed keyword = 0 := by decide
      rw [hfree _ hkeyword]
      exact Nat.zero_le _

/-- A token is read from as many backslashes as it needs. -/
theorem Reading.needed_le {c : Char} {more rest : List Char} {token : Token}
    (h : Reading (c :: more) token rest) :
    needed token + (more.drop (more.length - rest.length)).count '\\'
      ≤ (c :: more).count '\\' := by
  have hfree : needed token = 0 → needed token +
      (more.drop (more.length - rest.length)).count '\\' ≤ (c :: more).count '\\' := by
    intro hzero
    rw [hzero, Nat.zero_add]
    exact ((List.drop_sublist _ _).trans (List.sublist_cons_self c more)).count_le _
  have hsuffix : rest <:+ more → more.drop (more.length - rest.length) = rest := fun hrest =>
    (List.suffix_iff_eq_drop.mp hrest).symm
  generalize hall : c :: more = text at h
  cases h with
  | phrase hquoted =>
      obtain ⟨rfl, rfl⟩ := List.cons.inj hall
      obtain ⟨hrest, hcount⟩ := readQuoted?_needed hquoted
      rw [hsuffix hrest, needed, backslashes, String.toList_ofList]
      exact hcount.trans ((List.sublist_cons_self _ _).count_le _)
  | mark hmark =>
      have hmarks : ∀ mark ∈ marks, needed mark = 0 := by decide
      exact hall ▸ hfree (hmarks _ hmark)
  | sign hop => exact hall ▸ hfree rfl
  | date hdate =>
      obtain ⟨m, precision, rfl, -⟩ := readDate?_time hdate
      exact hall ▸ hfree rfl
  | @run run rest hrun hne hrest hdate =>
      have hbehind : rest <:+ more := by
        obtain ⟨d, others, rfl⟩ := List.exists_cons_of_ne_nil hne
        exact ⟨others, (List.cons.inj hall).2.symm⟩
      rw [hsuffix hbehind, List.count_append]
      exact Nat.add_le_add_right (needed_readRun hrun) _

/-- So is a whole text, behind the characters of a token that was already found. -/
theorem needed_of_scan {text : List Char} {position pending : Nat} {placed : List PlacedToken}
    (h : scan position pending text = .ok placed) :
    neededByAll (Parser.kinds placed) ≤ (text.drop pending).count '\\' := by
  induction text generalizing position pending placed with
  | nil =>
      cases h
      exact Nat.zero_le _
  | cons c more ih =>
      cases pending with
      | succ pending => exact ih h
      | zero =>
          rw [scan] at h
          split at h
          · exact (ih h).trans ((List.sublist_cons_self c more).count_le _)
          · split at h
            · cases h
            · rename_i token after htoken
              obtain ⟨others, hothers, h⟩ := bind_eq_ok.mp h
              cases h
              rw [Parser.kinds_cons, neededByAll_cons, List.drop_zero]
              exact (Nat.add_le_add_left (ih hothers) _).trans
                (reading_of_readToken htoken).needed_le

end Lexer

/-! ### What queries are derived from -/

/-- The backslashes that a scalar loses where it is printed. -/
def Value.lost : Value → Nat
  | .phrase text => backslashes text
  | _ => 0

/-- The backslashes that the scalars of a query lose where it is printed. -/
def Tree.lost (tree : Tree) : Nat := (tree.scalars.map Value.lost).sum

theorem Tree.IsNode.lost {node : List Tree → Tags → Tree} {separator : String}
    (hnode : IsNode node separator) (parts : List Tree) :
    (node parts []).lost = (parts.map Tree.lost).sum := by
  rw [Tree.lost, hnode.scalars]
  induction parts with
  | nil => rfl
  | cons part parts ih =>
      rw [Tree.scalarsOfAll, List.map_append, List.sum_append, ih, List.map_cons, List.sum_cons]
      rfl

namespace Grammar

open Tree (IsNode isNode_adjacent isNode_all isNode_any)
open Lexer (neededByAll neededByAll_cons neededByAll_append)

/-- Items in print need what their tokens need, whatever the tokens between them need. -/
theorem Chain.needs {α β : Type} {separator : String} (hseparator : backslashes separator = 0)
    (between : List Token) {yield : α → List Token} {meaning : α → β} (write : β → String)
    (writeAll : List β → String) (lost : β → Nat) (hone : ∀ b, writeAll [b] = write b)
    (hmore : ∀ b c rest, writeAll (b :: c :: rest) = write b ++ separator ++ writeAll (c :: rest))
    {items : Chain α} (h : ∀ item ∈ items.items,
      backslashes (write (meaning item)) + lost (meaning item) ≤ neededByAll (yield item)) :
    backslashes (writeAll (items.items.map meaning)) + ((items.items.map meaning).map lost).sum
      ≤ neededByAll (items.tokens between yield) := by
  induction items with
  | last item =>
      rw [Chain.items, List.map_singleton, hone, Chain.tokens]
      simpa using h item (List.mem_singleton_self item)
  | more item rest ih =>
      obtain ⟨hfirst, hrest⟩ := List.forall_mem_cons.mp h
      have hbehind := ih hrest
      obtain ⟨second, others, hitems⟩ := rest.exists_items
      rw [Chain.items, Chain.tokens, neededByAll_append, neededByAll_append]
      rw [hitems, List.map_cons] at hbehind ⊢
      rw [List.map_cons, hmore, backslashes_append, backslashes_append, hseparator, List.map_cons,
        List.sum_cons]
      omega

theorem Literal.needs {literal : Literal} (hnumber : ∀ x, literal.value ≠ .number x) :
    backslashes literal.value.write + literal.value.lost ≤ neededByAll literal.tokens := by
  obtain ⟨token, hvalue⟩ := literal
  cases token with
  | word text =>
      have hlost : (Parser.wordValue text).lost = 0 := by
        unfold Parser.wordValue
        split
        · rfl
        · split <;> rfl
      show backslashes (Parser.wordValue text).write + (Parser.wordValue text).lost ≤ _
      rw [wordValue_write, hlost]
      exact Nat.le_refl _
  | quoted phrase =>
      show backslashes (Value.writePhrase phrase) + backslashes phrase
        ≤ 2 * backslashes phrase + phrase.toList.count '\x22'
      rw [backslashes_phrase]
      omega
  | integer n =>
      show backslashes (toString n) ≤ 0
      rw [backslashes_integer]
  | number x => exact absurd rfl (hnumber x)
  | time m precision =>
      show backslashes (Value.time m precision).write ≤ 0
      rw [backslashes_time]
  | relative t => exact Nat.le_refl _
  | _ => cases hvalue

/-- A meaning without numbers needs the backslashes of its print and those that it loses. -/
def Needs (tokens : List Token) (tree : Tree) : Prop :=
  (∀ x, .number x ∉ tree.scalars) → backslashes tree.write + tree.lost ≤ neededByAll tokens

theorem backslashes_compare (field : String) (op : Operator) (v : Value) :
    backslashes (Tree.compare field op v).write = backslashes field + backslashes v.write := by
  have hsymbol : backslashes op.symbol = 0 := by cases op <;> decide
  have hblank : backslashes " " = 0 := by decide
  have hcolon : backslashes ": " = 0 := by decide
  rw [Tree.compare, Tree.write, Clause.write]
  simp only [apply_ite backslashes, backslashes_append, hsymbol, hblank, hcolon, Nat.add_zero,
    ite_self]

theorem needs_comparison (field : String) (how : Comparison) (literal : Literal) :
    Needs (.word field :: (how.tokens ++ literal.tokens))
      (.compare field how.op literal.value) := by
  intro hnumbers
  rw [Tree.scalars_compare, Parser.scalars_literal] at hnumbers
  have hliteral := @Literal.needs literal fun x hx => hnumbers x (List.mem_singleton.mpr hx.symm)
  have hfield : Lexer.needed (.word field) = backslashes field := rfl
  have hlost : (Tree.compare field how.op literal.value).lost = literal.value.lost := by
    rw [Tree.lost, Tree.scalars_compare, Parser.scalars_literal]
    simp
  rw [backslashes_compare, hlost, neededByAll_cons, neededByAll_append, hfield]
  omega

theorem needs_membership (field : String) (how : Membership) (values : Chain Literal) :
    Needs (.word field :: (how.tokens ++ listTokens values))
      (.compare field how.op (.list (values.items.map Literal.value))) := by
  intro hnumbers
  rw [Tree.scalars_compare, Value.scalars, Parser.scalarsOfAll_literals] at hnumbers
  have hcomma : backslashes ", " = 0 := by decide
  have hitems : backslashes (Value.writeAll (values.items.map Literal.value)) +
      ((values.items.map Literal.value).map Value.lost).sum
        ≤ neededByAll (values.tokens [.comma] Literal.tokens) :=
    Chain.needs hcomma [.comma] Value.write Value.writeAll Value.lost (fun _ => rfl)
      (fun _ _ _ => rfl) fun literal hliteral => Literal.needs fun x hx =>
        hnumbers x (hx ▸ List.mem_map_of_mem hliteral)
  have hfield : Lexer.needed (.word field) = backslashes field := rfl
  have hlost : (Tree.compare field how.op (.list (values.items.map Literal.value))).lost
      = ((values.items.map Literal.value).map Value.lost).sum := by
    rw [Tree.lost, Tree.scalars_compare, Value.scalars, Parser.scalarsOfAll_literals]
  rw [backslashes_compare, hlost, Value.write, backslashes_parenthesised, neededByAll_cons,
    neededByAll_append, hfield, listTokens, neededByAll_cons, listEnd, neededByAll_append]
  omega

theorem keptByChains_needs {node : List Tree → Tags → Tree} {separator : String}
    (hnode : IsNode node separator) (hseparator : backslashes separator = 0)
    (between : List Token) : KeptByChains Needs between node := by
  intro α yield meaning item rest hitems hnumbers
  rw [Chain.tree, hnode.scalars] at hnumbers
  have hall := Chain.needs hseparator between Tree.write (Tree.writeAll separator) Tree.lost
    (fun _ => rfl) (fun _ _ _ => rfl)
    fun a ha => hitems a ha fun x hx => hnumbers x
      (Tree.mem_scalarsOfAll.mpr ⟨meaning a, List.mem_map_of_mem ha, hx⟩)
  rw [Chain.tree, hnode.lost, hnode.write, backslashes_parenthesised]
  exact hall

theorem compositional_needs : Compositional Needs where
  negated := fun {tokens tree} h hnumbers => by
    have hwords : backslashes "NOT " = 0 := by decide
    rw [Tree.scalars] at hnumbers
    rw [Tree.write, backslashes_append, hwords, Tree.lost, Tree.scalars, neededByAll_cons]
    have hinner := h hnumbers
    rw [Tree.lost] at hinner
    omega
  group := fun {tokens tree} h hnumbers => by
    rw [neededByAll_cons, neededByAll_append]
    have hinner := h hnumbers
    omega
  comparison := needs_comparison
  membership := needs_membership
  value := fun literal hnumbers => by
    rw [Tree.scalars_anywhere, Parser.scalars_literal] at hnumbers
    have hliteral := @Literal.needs literal fun x hx => hnumbers x (List.mem_singleton.mpr hx.symm)
    rw [Tree.lost, Tree.scalars_anywhere, Parser.scalars_literal, Tree.anywhere, Tree.write,
      Clause.write]
    simpa using hliteral
  adjacent := keptByChains_needs isNode_adjacent (by decide) []
  all := keptByChains_needs isNode_all (by decide) [.andWord]
  any := keptByChains_needs isNode_any (by decide) [.orWord]

/-- An order is printed with its fields, and with keywords. -/
theorem needs_ordered {tree : Tree} {tokens : List Token} (h : Needs tokens tree)
    (order : Option (Chain SortItem)) :
    Needs (tokens ++ order.elim [] orderTokens) (ordered tree order) := by
  cases order with
  | none =>
      rw [Option.elim_none, List.append_nil]
      exact h
  | some order =>
      intro hnumbers
      rw [Grammar.ordered, Tree.scalars] at hnumbers
      have hinner := h hnumbers
      have hcomma : backslashes ", " = 0 := by decide
      have hwords : backslashes " ORDER BY " = 0 ∧ backslashes " DESC" = 0 ∧
          backslashes " ASC" = 0 := by decide
      have hkey : ∀ item : SortItem, backslashes item.key.write + 0 ≤ neededByAll item.tokens := by
        intro item
        rw [SortKey.write, backslashes_append, apply_ite backslashes, hwords.2.1, hwords.2.2,
          ite_self]
        exact Nat.le_add_right _ _
      have hkeys := Chain.needs hcomma [.comma] SortKey.write
        (fun keys => ", ".intercalate (keys.map SortKey.write)) (fun _ => 0) (fun _ => rfl)
        (fun _ _ _ => String.intercalate_cons_cons) fun item (_ : item ∈ order.items) => hkey item
      rw [Grammar.ordered, Tree.write, backslashes_append, backslashes_append, hwords.1, Tree.lost,
        Tree.scalars, neededByAll_append, Option.elim_some, orderTokens, neededByAll_cons,
        neededByAll_cons]
      rw [Tree.lost] at hinner
      omega

theorem needs_sentence (sentence : Sentence) : Needs sentence.tokens sentence.tree := by
  cases sentence with
  | orderAlone order =>
      have heverything : Needs [] .everything := fun _ => by decide
      exact needs_ordered heverything (some order)
  | found query order => exact needs_ordered (compositional_needs.disjunction query) order

end Grammar

/-! ### Whole queries -/

namespace Tree

/-- A query without numbers that is read back has lost nothing in print. -/
theorem lost_eq_zero {tree : Tree} (h : Tree.parse tree.write = .ok tree)
    (hnumbers : ∀ x, .number x ∉ tree.scalars) : tree.lost = 0 := by
  obtain ⟨tokens, htokens, hparse⟩ := bind_eq_ok.mp h
  obtain ⟨sentence, hkinds, htree⟩ := ofTokens_eq_ok.mp hparse
  have hneeds : backslashes tree.write + tree.lost ≤ Lexer.neededByAll sentence.tokens := by
    have hsentence := Grammar.needs_sentence sentence
    rw [htree] at hsentence
    exact hsentence hnumbers
  have hthere : Lexer.neededByAll (Parser.kinds tokens) ≤ backslashes tree.write :=
    Lexer.needed_of_scan htokens
  rw [hkinds] at hneeds
  omega

/--
**A query is read back from its text exactly if it has no phrase with a backslash**, and no number
other than integers.  Whatever text it was read from, and however deep it is, the text that it is
printed as is parsed then, and has the same nodes, operators, scalars and orders: a time even has
its offset again, and a relative time the words it was written with.  A single backslash in a
phrase, on the other hand, is enough for the text to be that of another query, or of none.
-/
theorem parse_write_iff {text : String} {tree : Tree} (h : Tree.parse text = .ok tree)
    (hnumbers : ∀ x, .number x ∉ tree.scalars) :
    Tree.parse tree.write = .ok tree ↔
      ∀ phrase, .phrase phrase ∈ tree.scalars → '\\' ∉ phrase.toList := by
  constructor
  · intro hback phrase hphrase
    exact backslashes_eq_zero.mp (List.sum_eq_zero_iff_forall_eq_nat.mp
      (lost_eq_zero hback hnumbers) _ (List.mem_map_of_mem hphrase))
  · intro hphrases
    refine parse_write_of_isPlain h fun v hv => ⟨?_, ?_⟩
    · rintro x rfl
      exact hnumbers x hv
    · rintro phrase rfl
      exact hphrases phrase hv

/-- A query with a quote in a phrase, literals of other kinds in a list, and an order. -/
def quotedText : String := "name:\x22a \\\x22\x22 OR d IN (2020-01-01, NOW-1d) NOT w*t ORDER BY n"

def quotedTokens : List PlacedToken :=
  [⟨.word "name", 0⟩, ⟨.colon, 4⟩, ⟨.quoted "a \x22", 5⟩, ⟨.orWord, 12⟩, ⟨.word "d", 15⟩,
    ⟨.inWord, 17⟩, ⟨.openParen, 20⟩, ⟨.time ⟨1577836800, 0, 0⟩ .day, 21⟩, ⟨.comma, 31⟩,
    ⟨.relative ⟨"NOW-1d", .now, 0, ⟨-86400000000000⟩⟩, 33⟩, ⟨.closeParen, 39⟩, ⟨.notWord, 41⟩,
    ⟨.word "w*t", 45⟩, ⟨.orderWord, 49⟩, ⟨.byWord, 55⟩, ⟨.word "n", 58⟩]

def quotedTree : Tree :=
  .sorted (.any [.compare "name" .equals (.phrase "a \x22"),
    .adjacent [.compare "d" .oneOf (.list [.time ⟨1577836800, 0, 0⟩ .day,
        .relative ⟨"NOW-1d", .now, 0, ⟨-86400000000000⟩⟩]),
      .negated (.anywhere (.wildcard "w*t")) []] []] []) [⟨"n", false⟩] []

theorem parse_write_iff_quoted :
    Tree.parse quotedText = .ok quotedTree ∧
      quotedTree.write =
        "(name = \x22a \\\x22\x22 OR (d IN (2020-01-01, NOW-1d) NOT w*t)) ORDER BY n ASC" ∧
      Tree.parse quotedTree.write = .ok quotedTree := by
  have htokens : tokenize quotedText = .ok quotedTokens := by decide +kernel
  have hparse : Tree.parse quotedText = .ok quotedTree := bind_eq_ok.mpr ⟨_, htokens, rfl⟩
  have hscalars : quotedTree.scalars = [.phrase "a \x22", .time ⟨1577836800, 0, 0⟩ .day,
      .relative ⟨"NOW-1d", .now, 0, ⟨-86400000000000⟩⟩, .wildcard "w*t"] := rfl
  refine ⟨hparse, by decide +kernel, (parse_write_iff hparse ?_).mpr ?_⟩
  · simp [hscalars]
  · intro phrase hphrase
    obtain rfl : phrase = "a \x22" := by simpa [hscalars] using hphrase
    decide

/-- A backslash in a phrase is not put behind another one, and is dropped where it is read. -/
theorem backslash_not_reread :
    Tree.parse "\x22a\\\\b\x22" = .ok (.anywhere (.phrase "a\\b")) ∧
      (∀ x, .number x ∉ (anywhere (.phrase "a\\b")).scalars) ∧
      (anywhere (.phrase "a\\b")).write = "\x22a\\b\x22" ∧
      Tree.parse "\x22a\\b\x22" = .ok (.anywhere (.phrase "ab")) ∧
      (anywhere (.phrase "ab")).same (anywhere (.phrase "a\\b")) = false := by
  have htokens : tokenize "\x22a\\\\b\x22" = .ok [⟨.quoted "a\\b", 0⟩] := by decide +kernel
  have hagain : tokenize "\x22a\\b\x22" = .ok [⟨.quoted "ab", 0⟩] := by decide +kernel
  refine ⟨bind_eq_ok.mpr ⟨_, htokens, rfl⟩, ?_, by decide +kernel,
    bind_eq_ok.mpr ⟨_, hagain, rfl⟩, by decide +kernel⟩
  simp [scalars_anywhere, Value.scalars]

end Tree

end DocIndex.Query
