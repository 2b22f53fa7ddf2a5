import PullLexer.Proofs.Seamless

/-!
# Scanning loses nothing

With the standard builder the tokens that scans hand out lie one right after
the other from the start of the input to the cursor. Scanning for all tokens
ends without a failure only at the end of the input, or where no pattern of any
rule matches.
-/

namespace PullLexer

-- ---------------------------------------------------------------------------
-- Plain tokens
-- ---------------------------------------------------------------------------

/-- The token is not empty, it says of itself where its lexeme lies, its text is the text of the
input there, and it has a value. -/
structure Token.Covers (input : Text) (t : Token Text) : Prop where
  start_lt_stop : t.start < t.stop
  start_eq : t.start = t.lexeme.index
  stop_eq : t.stop = t.lexeme.stop
  text_eq : t.text = input.between t.start t.stop
  value_ne_nil : t.value ≠ []

theorem Entry.LiesAt.covers {τ : Type} {input : Text} {p : Nat} {e : Entry τ} (h : e.LiesAt input p)
    (rule : Text) : (Token.plain rule e.lexeme).Covers input where
  start_lt_stop := by
    have hlt := h.lt
    show e.lexeme.index < e.lexeme.stop
    rw [h.index_eq, h.stop_eq]
    omega
  start_eq := rfl
  stop_eq := rfl
  text_eq := h.standsIn.text_eq
  value_ne_nil := Token.plainValue_ne_nil h.text_ne_nil

variable {ω τ : Type} [TokenLike τ] {s s' s₀ : Lexer ω τ}

/-- The token is the plain one that some rule makes of the lexeme. -/
def Entry.IsPlain (e : Entry τ) : Prop :=
  ∃ rule, e.item.value = TokenLike.ofToken (Token.plain rule e.lexeme)

theorem Lexer.yields_plain (hbuilder : s₀.builder = .standard) : s₀.Yields Entry.IsPlain := by
  intro s p q e s' hkindred _ hp
  obtain ⟨-, -, rule, m, verified, -, -, hbuild⟩ := produce_some hp
  rw [hkindred.2.1, hbuilder] at hbuild
  injection hbuild with hbuild
  injection hbuild with hbuild
  exact ⟨rule, hbuild.symm⟩

/-- Tokens that cover a text from its start up to an offset, one right after the other. -/
structure Tiling (input : Text) (offset : Nat) (tokens : List (Token Text)) : Prop where
  covers : ∀ t ∈ tokens, t.Covers input
  first_start : ∀ first, tokens.head? = some first → first.start = 0
  contiguous : tokens.IsChain fun a b => a.stop = b.start
  last_stop : ∀ last, tokens.getLast? = some last → last.stop = offset
  texts_eq : tokens.flatMap Token.text = input.take offset

theorem Tiled.tiling {input : Text} {q : Nat} {es : List (Entry τ)}
    (h : Tiled input Entry.IsPlain 0 es q) :
    ∃ tokens, es.map (·.item.value) = tokens.map TokenLike.ofToken ∧ Tiling input q tokens := by
  have hplain : ∀ e ∈ es, Entry.IsPlain e := fun e hmem => by
    obtain ⟨n, -, -, he⟩ := h.exists_liesAt hmem
    exact he
  choose! rule hrule using hplain
  refine ⟨es.map fun e => Token.plain (rule e) e.lexeme, ?_, ?_, ?_, ?_, ?_, ?_⟩
  · rw [List.map_map]
    exact List.map_congr_left hrule
  · intro t ht
    obtain ⟨e, hmem, rfl⟩ := List.mem_map.mp ht
    obtain ⟨n, -, he, -⟩ := h.exists_liesAt hmem
    exact he.covers (rule e)
  · intro first hfirst
    rw [List.head?_map, Option.map_eq_some_iff] at hfirst
    obtain ⟨e, he, rfl⟩ := hfirst
    exact h.index_head he
  · rw [List.isChain_map]
    exact h.isChain.imp fun a b hab => hab.symm
  · intro last hlast
    rw [List.getLast?_map, Option.map_eq_some_iff] at hlast
    obtain ⟨e, he, rfl⟩ := hlast
    exact h.stop_getLast he
  · rw [List.flatMap_map, ← h.take_append_texts]
    rfl

-- ---------------------------------------------------------------------------
-- Over scans
-- ---------------------------------------------------------------------------

namespace Lexer.Seamless

variable {handed : List (Item τ)}

theorem tiling (h : Seamless s₀ Entry.IsPlain handed s) :
    ∃ tokens, handed.map (·.value) = tokens.map TokenLike.ofToken ∧
      Tiling s₀.input s.position tokens ∧ tokens.flatMap Token.text = s.consumed := by
  obtain ⟨es, rfl, htiled⟩ := h.handed_eq
  obtain ⟨q, hlined⟩ := h.lined
  obtain ⟨tokens, hvalues, htiling⟩ := htiled.tiling
  refine ⟨tokens, by rw [← hvalues, List.map_map]; rfl, htiling, ?_⟩
  rw [htiling.texts_eq, ← hlined.consumed_append, hlined.position_eq, List.take_left]

/-- Plain tokens are no absent values, and the standard builder never says that there is no more. -/
theorem scanAll_eq (h : Seamless s₀ Entry.IsPlain [] s) (hbuilder : s₀.builder = .standard) :
    s.scanAll = s.drain.answer := by
  obtain ⟨t, ht, hscan⟩ := (sustained (yields_plain hbuilder)).drain_last h
  have hpresent : ∀ item ∈ s.drain.handed, item.passesForAbsent = false := by
    intro item hmem
    obtain ⟨es, hes, htiled⟩ := ht.handed_eq
    rw [List.nil_append] at hes
    rw [hes] at hmem
    obtain ⟨e, he, rfl⟩ := List.mem_map.mp hmem
    obtain ⟨-, -, -, rule, hvalue⟩ := htiled.exists_liesAt he
    rw [Item.passesForAbsent, hvalue, TokenLike.passesForAbsent_ofToken]
  have hclosed : s.drain.closed = s.drain := by
    unfold Progress.closed
    split
    · rename_i f hending
      rw [hending] at hscan
      split
      · rename_i hends
        obtain ⟨-, _, _, _, -, hbuild, -⟩ :=
          build_of_endsIteration (@produce_of_scan _ _ t _ (.error f) hscan).2 hends
        rw [ht.kindred.2.1, hbuilder] at hbuild
        cases hbuild
      · rfl
    · rfl
  rw [scanAll, collect_eq_closed hpresent, hclosed, present_of_forall hpresent]

theorem tiling_of_scanAll (h : Seamless s₀ Entry.IsPlain [] s)
    (hbuilder : s₀.builder = .standard) {items : List (Item τ)}
    (hall : s.scanAll = (.ok items, s')) :
    ∃ tokens, items.map (·.value) = tokens.map TokenLike.ofToken ∧
      Tiling s₀.input s'.position tokens ∧
      (tokens.flatMap Token.text = s₀.input ∧ s'.position = s₀.input.length ∧ s'.atEnd ∨
        s'.remaining ≠ [] ∧
          ∀ r ∈ s₀.rules.rules, ∀ p ∈ r.patterns, p.matchStart? s'.remaining = none) := by
  rw [h.scanAll_eq hbuilder] at hall
  obtain ⟨hending, rfl, rfl⟩ := ending_of_answer hall
  obtain ⟨t, ht, hscan⟩ := (sustained (yields_plain hbuilder)).drain_last h
  rw [hending] at hscan
  obtain ⟨hend, hq, hstuck⟩ := ht.stuck hscan
  obtain ⟨tokens, hvalues, htiling, htexts⟩ := hend.tiling
  obtain ⟨q, hlined⟩ := hend.lined
  refine ⟨tokens, hvalues, htiling, ?_⟩
  by_cases hr : s.drain.state.remaining = []
  · have hatEnd : s.drain.state.atEnd := by simp [atEnd, hr, hq]
    refine .inl ⟨?_, hlined.atEnd_iff.mp hatEnd, hatEnd⟩
    rw [htexts, ← hlined.consumed_append, hr, List.append_nil]
  · exact .inr ⟨hr, hstuck.resolve_left hr⟩

end Lexer.Seamless

namespace Operation

open Lexer

/-- The tokens that any number of scans hand out tile what they consumed. When all tokens are
scanned without a failure, they tile the whole input, or what remains is text that no pattern of any
rule matches. -/
theorem tiling_of_scans (input : Text) (rules : RuleTable) (settings : Settings ω τ) (memory : ω) :
    let s₀ := start input rules .standard settings memory
    (∀ n, let scans := List.replicate n Operation.scan
      let s := run s₀ scans
      ∃ tokens, (handedAlong s₀ scans).map (·.value) = tokens.map TokenLike.ofToken ∧
        Tiling input s.position tokens ∧ tokens.flatMap Token.text = s.consumed) ∧
    ∀ items s, s₀.scanAll = (.ok items, s) →
      ∃ tokens, items.map (·.value) = tokens.map TokenLike.ofToken ∧
        Tiling input s.position tokens ∧
        (tokens.flatMap Token.text = input ∧ s.position = input.length ∧ s.atEnd ∨
          s.remaining ≠ [] ∧
            ∀ r ∈ rules.rules, ∀ p ∈ r.patterns, p.matchStart? s.remaining = none) := by
  intro s₀
  have hstart : Seamless s₀ Entry.IsPlain [] s₀ := .start _ input rules .standard settings memory
  have hyields : s₀.Yields Entry.IsPlain := yields_plain rfl
  constructor
  · intro n scans s
    have hrun : Along Reads s₀ scans := along_of_forall fun operation hmem _ => by
      rw [List.eq_of_mem_replicate hmem]
      trivial
    exact (seamless_along_run hyields hstart hrun).tiling
  · intro items s hall
    exact hstart.tiling_of_scanAll rfl hall

/-- Scanning that stops before a character that no rule matches. -/
theorem tiling_of_scans_stuck :
    let rules : RuleTable := .ofSources [("A", "^(a)(b)?")]
    let s₀ : Lexer Unit (Token Text) := start "abac".toList rules .standard .default ()
    ∃ items s, s₀.scanAll = (.ok items, s) ∧ ∃ tokens,
      items.map (·.value) = tokens.map TokenLike.ofToken ∧ Tiling "abac".toList s.position tokens ∧
        (tokens.flatMap Token.text = "abac".toList ∧ s.position = "abac".toList.length ∧ s.atEnd ∨
          s.remaining ≠ [] ∧
            ∀ r ∈ rules.rules, ∀ p ∈ r.patterns, p.matchStart? s.remaining = none) := by
  intro rules s₀
  have hok : s₀.scanAll.1.isOk = true := by decide +kernel
  rcases hall : s₀.scanAll with ⟨⟨f⟩ | ⟨items⟩, s⟩
  · rw [hall] at hok
    cases hok
  · exact ⟨items, s, rfl, (tiling_of_scans "abac".toList rules .default ()).2 items s hall⟩

end Operation

end PullLexer
