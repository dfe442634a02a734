import ByteMachine.Proofs.Grammar
import ByteMachine.Proofs.NumeralGrammar

/-!
# The grammar of operands

A token ends with its first line. From the newline on it may hold layout, and
if it holds anything else there is no operand in it. A lone `B` is a label, but
not if a newline follows it; every other token has its kind from the first
character of its first line. Together with the kind, this line is all there is
to an operand.
-/
namespace ByteMachine

namespace Operand

variable {token : String} {head rest : List Char}

/-- Kind and text tell operands apart. -/
theorem eq_of_kind_of_text {a b : Operand} (hkind : a.kind = b.kind) (htext : a.text = b.text) :
    a = b := by
  obtain ⟨kind, raw⟩ := a
  obtain ⟨_, other⟩ := b
  obtain rfl : kind = _ := hkind
  cases kind <;> simpa [text] using htext

theorem kind_ofHead (cs : List Char) :
    (ofHead cs).kind =
      if cs.head? = some 'R' then .register
      else if cs.head? = some '#' then .immediate else .address := by
  by_cases hregister : cs.head? = some 'R'
  · obtain ⟨raw, rfl⟩ := List.head?_eq_some_iff.1 hregister
    rfl
  by_cases himmediate : cs.head? = some '#'
  · obtain ⟨raw, rfl⟩ := List.head?_eq_some_iff.1 himmediate
    rfl
  · rw [ofHead_of_unmarked hregister himmediate, if_neg hregister, if_neg himmediate]

/-- A lone `B` stands on one line. -/
theorem parts_of_lone (htoken : "B".toList = head ++ rest) (hrest : ∀ c ∈ rest.head?, c = '\n') :
    head = ['B'] ∧ rest = [] := by
  cases head with
  | nil =>
    obtain rfl : ['B'] = rest := htoken
    exact absurd (hrest 'B' rfl) (by decide)
  | cons c more =>
    obtain ⟨rfl, hmore⟩ := List.cons.inj htoken
    obtain ⟨rfl, rfl⟩ := List.append_eq_nil_iff.1 hmore.symm
    exact ⟨rfl, rfl⟩

/-- The first line of a token makes the operand, and the rest decides whether there is one. -/
theorem parse?_of_parts (htoken : token.toList = head ++ rest) (hhead : '\n' ∉ head)
    (hrest : ∀ c ∈ rest.head?, c = '\n') :
    ∃ read, parse? token = (if rest.all isLayout then some read else none) ∧
      read.text = String.ofList head ∧
      read.kind =
        if token = "B" then .label
        else if head.head? = some 'R' then .register
        else if head.head? = some '#' then .immediate
        else .address := by
  by_cases hlone : token = "B"
  · subst hlone
    obtain ⟨rfl, rfl⟩ := parts_of_lone htoken hrest
    exact ⟨⟨.label, "B"⟩, rfl, rfl, rfl⟩
  have hline (c : Char) (hc : c ∈ head) : decide (c ≠ '\n') = true :=
    decide_eq_true fun hsame => hhead (hsame ▸ hc)
  have hstop (c : Char) (hc : c ∈ rest.head?) : decide (c ≠ '\n') = false := by
    simp [hrest c hc]
  obtain ⟨hfirst, hlater⟩ := Text.cut_append hline hstop
  have hother : token.toList ≠ ['B'] := fun hsame => hlone (String.toList_inj.1 hsame)
  refine ⟨ofHead head, ?_, text_ofHead head, ?_⟩
  · rw [parse?_eq, if_neg hother, htoken, hfirst, hlater]
  · rw [if_neg hlone, kind_ofHead]

end Operand

open Operand in
/-- Which tokens are operands, and which operands they are. From its first newline on, a token may
hold nothing but layout. Then the operand has the first line for its text, and its kind from the
first character of this line, save that a token of nothing but `B` is a label. -/
theorem operand_grammar {token : String} {head rest : List Char}
    (htoken : token.toList = head ++ rest) (hhead : '\n' ∉ head)
    (hrest : ∀ c ∈ rest.head?, c = '\n') :
    (parse? token = none ↔ ∃ c ∈ rest, c ∉ [' ', '\t', '\n', '\r']) ∧
      ∀ o, parse? token = some o ↔
        (∀ c ∈ rest, c ∈ [' ', '\t', '\n', '\r']) ∧ o.text = String.ofList head ∧
          o.kind =
            if token = "B" then .label
            else if head.head? = some 'R' then .register
            else if head.head? = some '#' then .immediate
            else .address := by
  obtain ⟨read, hread, htext, hkind⟩ := parse?_of_parts htoken hhead hrest
  have hlayout : rest.all isLayout = true ↔ ∀ c ∈ rest, c ∈ [' ', '\t', '\n', '\r'] := by
    simp only [List.all_eq_true, isLayout_iff]
  rw [hread, ← htext, ← hkind]
  by_cases hall : ∀ c ∈ rest, c ∈ [' ', '\t', '\n', '\r']
  · rw [if_pos (hlayout.2 hall)]
    refine ⟨⟨nofun, ?_⟩, fun o => ⟨?_, ?_⟩⟩
    · rintro ⟨c, hc, hother⟩
      exact absurd (hall c hc) hother
    · intro h
      obtain rfl := Option.some.inj h
      exact ⟨hall, rfl, rfl⟩
    · rintro ⟨_, hsame, hkinds⟩
      exact congrArg some (eq_of_kind_of_text hkinds.symm hsame.symm)
  · rw [if_neg (mt hlayout.1 hall)]
    have hother : ∃ c ∈ rest, c ∉ [' ', '\t', '\n', '\r'] := by
      simpa only [not_forall, exists_prop] using hall
    refine ⟨⟨fun _ => hother, fun _ => rfl⟩, fun o => ⟨nofun, ?_⟩⟩
    rintro ⟨hblank, _⟩
    exact absurd hblank hall

open Operand in
/-- A newline makes an address of a lone `B`, the layout behind it does not count, and the empty
token is an address too. -/
theorem operand_grammar_newline :
    parse? "B\n \r" = some ⟨.address, "B"⟩ ∧ parse? "" = some ⟨.address, ""⟩ ∧
      parse? "R1\n2" = none := by
  obtain ⟨_, hlone⟩ := @operand_grammar "B\n \r" ['B'] ['\n', ' ', '\r'] rfl (by decide) (by simp)
  obtain ⟨_, hempty⟩ := @operand_grammar "" [] [] rfl (by decide) (by simp)
  obtain ⟨hnone, _⟩ := @operand_grammar "R1\n2" ['R', '1'] ['\n', '2'] rfl (by decide) (by simp)
  exact ⟨(hlone _).2 ⟨by simp, rfl, rfl⟩, (hempty _).2 ⟨by simp, rfl, rfl⟩,
    hnone.2 ⟨'2', by simp, by simp⟩⟩

end ByteMachine
