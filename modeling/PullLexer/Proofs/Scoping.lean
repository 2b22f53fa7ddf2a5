import Mathlib.Data.List.Forall2
import PullLexer.Proofs.Reentry
import PullLexer.Settings.Scope

/-!
# Programs under settings

Client code of one context as a syntax tree: it changes the active settings,
creates lexers and works on them, raises and catches failures, and runs blocks
under settings of their own. Of all changes those outside of every block count
once the program has ended (`Program.active_run`). A lexer keeps the settings
and the builder that it was created with, whatever is done to it or to the
active settings afterwards (`Program.stocks_run`).
-/

namespace PullLexer

open List (Forall₂)

variable {ω τ : Type}

-- ---------------------------------------------------------------------------
-- Programs
-- ---------------------------------------------------------------------------

/-- What client code has at hand: the active settings, what its builders remember, and the lexers
that it created, oldest first. -/
structure Desk (ω τ : Type) where
  scope : Scope ω τ
  lexers : List (Lexer ω τ) := []

/-- Client code. What comes after a part of it, and what handles a failure, may depend on all that
is found then. -/
inductive Program (ω τ : Type) where
  | done
  | fail (f : Failure)
  | use (settings : Settings ω τ)
  | reset
  /-- Creates a lexer under settings given, or else under the active ones. -/
  | create (input rules : Value) (choice : Builder.Choice ω τ) (given : Option (Settings ω τ))
  | operate (n : Nat) (operation : Operation ω τ) (unguarded : operation.Unguarded)
  | within (settings : Settings ω τ) (body : Program ω τ)
  | andThen (first : Program ω τ) (rest : Desk ω τ → Program ω τ)
  | attempt (body : Program ω τ) (handler : Failure → Desk ω τ → Program ω τ)

namespace Desk

variable [TokenLike τ]

def use (settings : Settings ω τ) (d : Desk ω τ) : Desk ω τ :=
  { d with scope := d.scope.use settings }

def create (input rules : Value) (choice : Builder.Choice ω τ) (given : Option (Settings ω τ))
    (d : Desk ω τ) : Except Failure Unit × Desk ω τ :=
  match (Lexer.create input rules choice (given.getD d.scope.active) d.scope.memory).1 with
  | .ok s => (.ok (), { d with lexers := d.lexers ++ [s] })
  | .error f => (.error f, d)

/-- Performs an operation of the lexer in this place, which shares its memory with all others. -/
def operate (n : Nat) (operation : Operation ω τ) (d : Desk ω τ) : Except Failure Unit × Desk ω τ :=
  match d.lexers[n]? with
  | none => (.ok (), d)
  | some s =>
    match operation.perform { s with memory := d.scope.memory } with
    | (answer, s) =>
      (answer.map fun _ => (), ⟨{ d.scope with memory := s.memory }, d.lexers.set n s⟩)

end Desk

namespace Program

variable [TokenLike τ]

def run : Program ω τ → Desk ω τ → Except Failure Unit × Desk ω τ
  | .done, d => (.ok (), d)
  | .fail f, d => (.error f, d)
  | .use settings, d => (.ok (), d.use settings)
  | .reset, d => (.ok (), { d with scope := d.scope.reset })
  | .create input rules choice given, d => d.create input rules choice given
  | .operate n operation _, d => d.operate n operation
  | .within settings body, d =>
    match body.run (d.use settings) with
    | (outcome, after) => (outcome, after.use d.scope.active)
  | .andThen first rest, d =>
    match first.run d with
    | (.ok _, d) => (rest d).run d
    | (.error f, d) => (.error f, d)
  | .attempt body handler, d =>
    match body.run d with
    | (.ok _, d) => (.ok (), d)
    | (.error f, d) => (handler f d).run d

/-- A block as an action on a scope, with the lexers at hand when it starts. -/
def block (body : Program ω τ) (lexers : List (Lexer ω τ)) : Scope.Action ω τ Unit := fun scope =>
  ((body.run ⟨scope, lexers⟩).1, (body.run ⟨scope, lexers⟩).2.scope)

theorem run_within (settings : Settings ω τ) (body : Program ω τ) (d : Desk ω τ) :
    Scope.within settings (body.block d.lexers) d.scope =
      (((within settings body).run d).1, ((within settings body).run d).2.scope) := rfl

-- ---------------------------------------------------------------------------
-- The active settings
-- ---------------------------------------------------------------------------

/-- The settings that a program makes active outside of every block, in order. -/
def assigned : Program ω τ → Desk ω τ → List (Settings ω τ)
  | .use settings, _ => [settings]
  | .reset, _ => [.default]
  | .andThen first rest, d =>
    first.assigned d ++
      match first.run d with
      | (.ok _, d) => (rest d).assigned d
      | (.error _, _) => []
  | .attempt body handler, d =>
    body.assigned d ++
      match body.run d with
      | (.ok _, _) => []
      | (.error f, d) => (handler f d).assigned d
  | _, _ => []

theorem active_create (input rules : Value) (choice : Builder.Choice ω τ)
    (given : Option (Settings ω τ)) (d : Desk ω τ) :
    (d.create input rules choice given).2.scope = d.scope := by
  unfold Desk.create
  split <;> rfl

theorem active_operate (n : Nat) (operation : Operation ω τ) (d : Desk ω τ) :
    (d.operate n operation).2.scope.active = d.scope.active := by
  unfold Desk.operate
  split <;> rfl

/-- What is active when a program has ended is what it made active last outside of every block. -/
theorem active_run (program : Program ω τ) (d : Desk ω τ) :
    (program.run d).2.scope.active = (program.assigned d).getLast?.getD d.scope.active := by
  induction program generalizing d with
  | done => rfl
  | fail f => rfl
  | use settings => rfl
  | reset => rfl
  | create input rules choice given =>
    exact congrArg Scope.active (active_create input rules choice given d)
  | operate n operation _ => exact active_operate n operation d
  | within settings body _ => rfl
  | andThen first rest ihfirst ihrest =>
    have hfirst := ihfirst d
    simp only [run, assigned]
    rcases hrun : first.run d with ⟨f | _, after⟩ <;> rw [hrun] at hfirst
    · simpa using hfirst
    · rw [List.getLast?_append, Option.getD_or, ← hfirst]
      exact ihrest after after
  | attempt body handler ihbody ihhandler =>
    have hbody := ihbody d
    simp only [run, assigned]
    rcases hrun : body.run d with ⟨f | _, after⟩ <;> rw [hrun] at hbody
    · rw [List.getLast?_append, Option.getD_or, ← hbody]
      exact ihhandler f after after
    · simpa using hbody

end Program

-- ---------------------------------------------------------------------------
-- What a lexer is made with
-- ---------------------------------------------------------------------------

namespace Builder.Choice

def IsAbsent : Choice ω τ → Prop
  | .nothing | .value .null => True
  | _ => False

/-- A builder names itself, and a function the builder that wraps it. -/
inductive Names : Choice ω τ → Builder ω τ → Prop
  | builder (b : Builder ω τ) : Names (.builder b) b
  | function (name : Text) (f : Build ω τ) (shared : τ → Option Text) :
      Names (.function name f shared) ⟨"CallableTokenFactory".toList, f, shared⟩

/-- The builder chosen, or else the one that the settings choose, or else the standard one. -/
inductive Serves [TokenLike τ] (settings : Settings ω τ) (choice : Choice ω τ) :
    Builder ω τ → Prop
  | chosen {b : Builder ω τ} : choice.Names b → Serves settings choice b
  | bySettings {b : Builder ω τ} : choice.IsAbsent → settings.builder.Names b →
      Serves settings choice b
  | standard : choice.IsAbsent → settings.builder.IsAbsent → Serves settings choice .standard

theorem orElse_cases (first second : Choice ω τ) :
    first.IsAbsent ∧ first.orElse second = second ∨
      ¬ first.IsAbsent ∧ first.orElse second = first := by
  cases first with
  | nothing => exact .inl ⟨trivial, rfl⟩
  | builder b => exact .inr ⟨id, rfl⟩
  | function name f shared => exact .inr ⟨id, rfl⟩
  | value v =>
    cases v with
    | null => exact .inl ⟨trivial, rfl⟩
    | _ => exact .inr ⟨id, rfl⟩

variable [TokenLike τ] {settings : Settings ω τ} {choice : Choice ω τ} {b : Builder ω τ}

theorem names_or_standard (h : choice.resolve = .ok b) :
    choice.Names b ∨ choice.IsAbsent ∧ b = .standard := by
  cases choice with
  | nothing =>
    cases h
    exact .inr ⟨trivial, rfl⟩
  | builder b' =>
    cases h
    exact .inl (.builder b)
  | function name f shared =>
    cases h
    exact .inl (.function name f shared)
  | value v =>
    cases v <;> cases h
    exact .inr ⟨trivial, rfl⟩

theorem serves_of_resolve (h : (choice.orElse settings.builder).resolve = .ok b) :
    Serves settings choice b := by
  rcases orElse_cases choice settings.builder with ⟨habsent, helse⟩ | ⟨hgiven, helse⟩ <;>
    rw [helse] at h <;> rcases names_or_standard h with hnames | ⟨hnone, rfl⟩
  · exact .bySettings habsent hnames
  · exact .standard habsent hnone
  · exact .chosen hnames
  · exact absurd hnone hgiven

end Builder.Choice

/-- The settings that a lexer is to be created under, and the builder chosen for it. -/
structure Commission (ω τ : Type) where
  settings : Settings ω τ
  choice : Builder.Choice ω τ

def Lexer.outfit (s : Lexer ω τ) : Settings ω τ × Builder ω τ := (s.settings, s.builder)

variable [TokenLike τ]

def Commission.Met (c : Commission ω τ) (outfit : Settings ω τ × Builder ω τ) : Prop :=
  outfit.1 = c.settings ∧ c.choice.Serves c.settings outfit.2

theorem Lexer.met_create {input rules : Value} {c : Commission ω τ} {memory : ω} {s : Lexer ω τ}
    (h : (create input rules c.choice c.settings memory).1 = .ok s) :
    c.Met s.outfit ∧ s.verified.Sound := by
  unfold create at h
  split at h
  · rename_i t
    split at h
    · cases h
    · rename_i builder hresolve
      have hserves := Builder.Choice.serves_of_resolve hresolve
      dsimp only at h
      split at h
      · obtain ⟨rules', journal, hframe⟩ :=
          addRules_frame (start t .empty builder c.settings memory) rules
        split at h
        · rename_i s' hadd
          cases h
          obtain rfl : s = _ := (congrArg Prod.snd hadd).symm.trans hframe
          exact ⟨⟨rfl, hserves⟩, Verified.sound_nil⟩
        · cases h
      · cases h
        exact ⟨⟨rfl, hserves⟩, Verified.sound_nil⟩
  · cases h

theorem Operation.outfit_step {operation : Operation ω τ} {s : Lexer ω τ}
    (hunguarded : operation.Unguarded) (hsound : s.verified.Sound) :
    (operation.step s).outfit = s.outfit ∧ (operation.step s).verified.Sound := by
  have hupheld : Upheld (fun _ operation => operation.Unguarded)
      (Lexer.Equipped s.builder s.settings) :=
    Lexer.upheld_equipped s.builder s.settings False.elim
  obtain ⟨hbuilder, hsettings, hsound⟩ := hupheld.step ⟨rfl, rfl, hsound⟩ hunguarded
  exact ⟨Prod.ext hsettings hbuilder, hsound⟩

namespace Desk

def Sound (d : Desk ω τ) : Prop := ∀ s ∈ d.lexers, s.verified.Sound

def outfits (d : Desk ω τ) : List (Settings ω τ × Builder ω τ) := d.lexers.map Lexer.outfit

/-- The lexers of one desk are those of the other with their outfits, and then these. -/
structure Stocks (d : Desk ω τ) (commissions : List (Commission ω τ)) (after : Desk ω τ) :
    Prop where
  sound : after.Sound
  outfits_eq : ∃ made, after.outfits = d.outfits ++ made ∧
    Forall₂ Commission.Met commissions made

variable {d d' d'' : Desk ω τ} {commissions more : List (Commission ω τ)}

theorem Stocks.of_outfits_eq (hsound : d'.Sound) (h : d'.outfits = d.outfits) : Stocks d [] d' :=
  ⟨hsound, [], by rw [h, List.append_nil], .nil⟩

theorem Stocks.refl (h : d.Sound) : Stocks d [] d := .of_outfits_eq h rfl

theorem Stocks.trans (h : Stocks d commissions d') (h' : Stocks d' more d'') :
    Stocks d (commissions ++ more) d'' := by
  obtain ⟨made, houtfits, hmet⟩ := h.outfits_eq
  obtain ⟨made', houtfits', hmet'⟩ := h'.outfits_eq
  refine ⟨h'.sound, made ++ made', ?_, List.rel_append hmet hmet'⟩
  rw [houtfits', houtfits, List.append_assoc]

theorem stocks_operate (hsound : d.Sound) (n : Nat) {operation : Operation ω τ}
    (hunguarded : operation.Unguarded) : Stocks d [] (d.operate n operation).2 := by
  unfold operate
  split
  · exact .refl hsound
  · rename_i s hs
    have hstep := Operation.outfit_step (s := { s with memory := d.scope.memory }) hunguarded
      (hsound s (List.mem_of_getElem? hs))
    obtain ⟨houtfit, hremembered⟩ := hstep
    refine .of_outfits_eq (fun t ht => ?_) ?_
    · rcases List.mem_or_eq_of_mem_set ht with ht | rfl
      · exact hsound t ht
      · exact hremembered
    · obtain ⟨hn, rfl⟩ := List.getElem?_eq_some_iff.mp hs
      have hsame : (d.lexers.set n d.lexers[n]).map Lexer.outfit = d.outfits := by
        rw [List.set_getElem_self, outfits]
      rw [← hsame, List.map_set]
      show (d.lexers.set n _).map Lexer.outfit = _
      rw [List.map_set]
      exact congrArg _ houtfit

theorem stocks_create (hsound : d.Sound) (input rules : Value) (choice : Builder.Choice ω τ)
    (given : Option (Settings ω τ)) :
    Stocks d
      (match (d.create input rules choice given).1 with
        | .ok _ => [⟨given.getD d.scope.active, choice⟩]
        | .error _ => [])
      (d.create input rules choice given).2 := by
  let c : Commission ω τ := ⟨given.getD d.scope.active, choice⟩
  cases hcreate : (Lexer.create input rules choice c.settings d.scope.memory).1 with
  | error f =>
    simp only [create, hcreate, c]
    exact .refl hsound
  | ok s =>
    obtain ⟨hmet, hremembered⟩ := Lexer.met_create (c := c) hcreate
    simp only [create, hcreate, c]
    refine ⟨?_, [s.outfit], List.map_append, .cons hmet .nil⟩
    intro t ht
    rcases List.mem_append.mp ht with ht | ht
    · exact hsound t ht
    · exact List.mem_singleton.mp ht ▸ hremembered

end Desk

namespace Program

/-- What lexers are created with while a program runs, in order: the settings given or active then,
and the builder chosen. -/
def commissions : Program ω τ → Desk ω τ → List (Commission ω τ)
  | .create input rules choice given, d =>
    match (d.create input rules choice given).1 with
    | .ok _ => [⟨given.getD d.scope.active, choice⟩]
    | .error _ => []
  | .within settings body, d => body.commissions (d.use settings)
  | .andThen first rest, d =>
    first.commissions d ++
      match first.run d with
      | (.ok _, d) => (rest d).commissions d
      | (.error _, _) => []
  | .attempt body handler, d =>
    body.commissions d ++
      match body.run d with
      | (.ok _, _) => []
      | (.error f, d) => (handler f d).commissions d
  | _, _ => []

/-- The lexers there were keep their outfits while a program runs, and those that it creates come
after them with what they were created with. -/
theorem stocks_run (program : Program ω τ) {d : Desk ω τ} (hsound : d.Sound) :
    d.Stocks (program.commissions d) (program.run d).2 := by
  induction program generalizing d with
  | done => exact .refl hsound
  | fail f => exact .refl hsound
  | use settings => exact .of_outfits_eq hsound rfl
  | reset => exact .of_outfits_eq hsound rfl
  | create input rules choice given => exact Desk.stocks_create hsound input rules choice given
  | operate n operation hunguarded => exact Desk.stocks_operate hsound n hunguarded
  | within settings body ih =>
    have hbody := ih (d := d.use settings) hsound
    exact ⟨hbody.sound, hbody.outfits_eq⟩
  | andThen first rest ihfirst ihrest =>
    have hfirst := ihfirst hsound
    simp only [run, commissions]
    rcases hrun : first.run d with ⟨f | _, after⟩ <;> rw [hrun] at hfirst
    · simpa using hfirst
    · exact hfirst.trans (ihrest after hfirst.sound)
  | attempt body handler ihbody ihhandler =>
    have hbody := ihbody hsound
    simp only [run, commissions]
    rcases hrun : body.run d with ⟨f | _, after⟩ <;> rw [hrun] at hbody
    · exact hbody.trans (ihhandler f after hbody.sound)
    · simpa using hbody

/-- However a block ends, and whatever is made active inside, after it the settings are active that
were active before, and after any program those that it made active last outside of every block.
Each lexer keeps the settings that it was given or that were active when it was created, and the
builder chosen for it, or else that of its settings, or else the standard one. -/
theorem bracketed_and_captured (program : Program ω τ) (d : Desk ω τ) (hsound : d.Sound) :
    (∀ settings, let closed := (within settings program).run d
      Scope.within settings (program.block d.lexers) d.scope = (closed.1, closed.2.scope) ∧
        closed.1 = (program.run (d.use settings)).1 ∧ closed.2.scope.active = d.scope.active) ∧
      (program.run d).2.scope.active = (program.assigned d).getLast?.getD d.scope.active ∧
      (program.run d).2.Sound ∧
      ∃ made, (program.run d).2.outfits = d.outfits ++ made ∧
        Forall₂ Commission.Met (program.commissions d) made := by
  have hstocks := program.stocks_run hsound
  refine ⟨fun settings => ⟨program.run_within settings d, rfl, rfl⟩, ?_, ?_, ?_⟩
  · exact program.active_run d
  · exact hstocks.sound
  · exact hstocks.outfits_eq

/-- A lexer is created inside a block, which then makes other settings active and fails; settings
made active by the handler stay for the second lexer. -/
theorem bracketed_and_captured_across_failure :
    let short : Settings Unit (Token Text) := { excerptLength := .int 5 }
    let long : Settings Unit (Token Text) := { excerptLength := .int 40 }
    let creates : Program Unit (Token Text) := .create (.text "ab".toList) .null .nothing none
    let program : Program Unit (Token Text) :=
      .andThen
        (.attempt
          (.within short (.andThen creates fun _ => .andThen .reset fun _ => .fail .notABound))
          fun _ _ => .use long)
        fun _ => creates
    let d : Desk Unit (Token Text) := ⟨⟨.default, ()⟩, []⟩
    d.Sound ∧ program.assigned d = [long] ∧
      program.commissions d = [⟨short, .nothing⟩, ⟨long, .nothing⟩] ∧
      (program.run d).2.scope.active = long ∧
      ∃ made, (program.run d).2.outfits = made ∧
        Forall₂ Commission.Met (program.commissions d) made := by
  intro short long creates program d
  have hsound : d.Sound := fun s hs => (List.not_mem_nil hs).elim
  obtain ⟨-, hactive, -, hmade⟩ := bracketed_and_captured program d hsound
  exact ⟨hsound, rfl, rfl, hactive, hmade⟩

end Program

end PullLexer
