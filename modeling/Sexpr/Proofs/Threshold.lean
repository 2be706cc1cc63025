import Sexpr.Proofs.Descent
import Sexpr.Proofs.Stations

/-!
# The nesting limit as a threshold

The limit matters at one point only: an opening parenthesis needs room. So a text that is not
refused for its nesting is read in the same way with any greater limit (`resume_raise`), and a text
that is read needs a limit as great as its nesting and no more. The lists that are open are also a
count that goes up and down as a reader goes down into a list and comes back (`Reader.Descends`),
and `Reader.Invokes` follows it to every reader on the way. `limit_is_sharp_threshold` puts the two
together.
-/

namespace Sexpr

/-! ## Raising the limit -/

namespace Station

variable {limit higher : Int} {depth : Nat} {s t : Station}

/-- A greater limit leaves at least as much room. -/
theorem room_mono (h : limit ≤ higher) (depth : Nat) : room limit depth ≤ room higher depth := by
  unfold room
  omega

/-- A step is possible with a greater limit too. -/
theorem Step.raise (h : limit ≤ higher) (hstep : Step limit depth s t) : Step higher depth s t := by
  cases hstep with
  | opening hnext hroom =>
      have hmore := room_mono h depth
      exact .opening hnext (by omega)
  | closing hnext => exact .closing hnext
  | atom hnext => exact (Step.atom hnext :)
  | literal hnext => exact (Step.literal hnext :)

/-- A station that is reached is reached with a greater limit too. -/
theorem Leads.raise (h : limit ≤ higher) (hleads : Leads limit depth s t) :
    Leads higher depth s t := by
  induction hleads with
  | refl => exact .refl
  | tail _ hstep ih => exact .tail ih (hstep.raise h)

/-- Reading ends in the same way with a greater limit, unless the limit was met. -/
theorem Ends.raise {halt : Halt} {stop : Cursor} (h : s.Ends limit depth halt stop) (higher : Int) :
    (∃ p, halt = .fault ⟨.tooDeep limit, p⟩) ∨ s.Ends higher depth halt stop := by
  cases h with
  | nothing hnext => exact .inr (.nothing hnext)
  | fault hnext => exact .inr (.fault hnext)
  | tooDeep => exact .inl ⟨_, rfl⟩
  | unmatched hnext hstack => exact .inr (.unmatched hnext hstack)

end Station

/-- Reading that does not meet the limit comes to the same with a greater limit. -/
theorem resume_raise {limit higher : Int} (h : limit ≤ higher) (depth : Nat) (cursor : Cursor) :
    (∃ p, (resume limit depth [] cursor).halt = .fault ⟨.tooDeep limit, p⟩) ∨
      resume higher depth [] cursor = resume limit depth [] cursor := by
  obtain ⟨last, halt, stop, hleads, hends, houtcome⟩ :=
    Station.exists_last limit depth (.start cursor)
  rw [Station.outcome_start] at houtcome
  rw [houtcome]
  refine (hends.raise higher).imp id fun hhigher => ?_
  rw [← Station.outcome_start, (hleads.raise h).outcome_eq, hhigher.outcome_eq]

/-- A text that is not refused for its nesting is read, or refused, in the same way with a greater
limit. -/
theorem parse_raise {source : String} {limit higher : Int} (h : limit ≤ higher) :
    (∃ p, parse source limit = .error ⟨.tooDeep limit, p⟩) ∨
      parse source higher = parse source limit := by
  refine (resume_raise h 0 (.ofText source.toList)).imp ?_ fun hsame => ?_
  · rintro ⟨p, hdeep⟩
    exact ⟨p, parse_of_fault hdeep⟩
  · cases hparse : parse source limit with
    | ok nodes =>
        rw [parse_eq_ok_iff] at hparse ⊢
        rwa [hsame]
    | error error =>
        rw [parse_eq_error_iff] at hparse ⊢
        rwa [hsame]

/-! ## Readers within lists -/

namespace Reader

variable {reader : Reader}

/-- One reader leads to another: it goes down into a list, or it has read a form. -/
inductive Invokes : Reader → Reader → Prop where
  | list {reader : Reader} : reader.skipBlanks.peek = some '(' → reader.depth < reader.limit →
      Invokes reader reader.skipBlanks.enter
  | form {reader after : Reader} {node : Node} : reader.readForm = (.ok node, after) →
      Invokes reader after

/-- No reader that another leads to is within more lists than the limit allows. -/
theorem Invokes.depth_le {after : Reader} (h : reader.Invokes after)
    (hdepth : reader.depth ≤ max reader.limit 0) :
    after.limit = reader.limit ∧ after.depth ≤ max reader.limit 0 := by
  cases h with
  | list hpeek hroom =>
      refine ⟨rfl, ?_⟩
      simp only [enter, skipBlanks]
      omega
  | form hread =>
      obtain ⟨hsame, hlimit⟩ := reader.readForm_keeps
      rw [hread] at hsame hlimit
      rw [hsame]
      exact ⟨hlimit, hdepth⟩

/-- A reader of a text leads only to readers that are within as many lists as the limit allows. -/
theorem depth_le_of_invokes {source : String} {limit : Int}
    (h : Relation.ReflTransGen Invokes (.ofText source limit) reader) :
    reader.limit = limit ∧ reader.depth ≤ max limit 0 := by
  induction h with
  | refl => exact ⟨rfl, Int.le_max_right limit 0⟩
  | tail _ hinvokes ih =>
      obtain ⟨rfl, hdepth⟩ := ih
      exact hinvokes.depth_le hdepth

end Reader

/-! ## The threshold -/

/-- A text that is read with some limit is read in the same way with any limit that is as great as
its nesting. -/
theorem parse_of_nesting_le {source : String} {limit other : Int} {nodes : List Node}
    (h : parse source limit = .ok nodes) (hother : Node.nestingItems nodes ≤ max other 0) :
    parse source other = .ok nodes := by
  obtain ⟨rest, p, hrest, hspans⟩ := parse_spans_to h
  exact parse_of_spans hspans hrest (le_room_iff.mpr hother)

/-- A text that is read with some limit is refused with any limit that is less than its nesting. -/
theorem parse_of_lt_nesting {source : String} {limit other : Int} {nodes : List Node}
    (h : parse source limit = .ok nodes) (hother : max other 0 < Node.nestingItems nodes) :
    ∃ p, parse source other = .error ⟨.tooDeep other, p⟩ := by
  have hneeded := le_room_iff.mp (parse_sound h).1
  have hle : other ≤ limit := by omega
  refine (parse_raise hle).resolve_right fun hsame => ?_
  have henough := le_room_iff.mp (parse_sound (hsame.symm.trans h)).1
  omega

/-- The nesting limit is a threshold and changes nothing else. A text that is not refused for its
nesting with one limit is read, or refused, in the same way with any greater limit. A text that is
read with some limit is read to the same forms with every limit that is at least their nesting,
where a negative limit counts as zero, and it is refused for its nesting with every other limit.
And whatever readers the reading of a text leads to, into lists and from form to form, they are
within no more lists than the limit allows; each of them goes down into a list as a reader within
one list more, and comes back from it within as many lists as before, also with a fault. -/
theorem limit_is_sharp_threshold (source : String) :
    (∀ limit higher : Int, limit ≤ higher →
      (∀ bound p, parse source limit ≠ .error ⟨.tooDeep bound, p⟩) →
      parse source higher = parse source limit) ∧
    (∀ (limit : Int) nodes, parse source limit = .ok nodes → ∀ other : Int,
      (Node.nestingItems nodes ≤ max other 0 → parse source other = .ok nodes) ∧
      (max other 0 < Node.nestingItems nodes →
        ∃ p, parse source other = .error ⟨.tooDeep other, p⟩)) ∧
    ∀ (limit : Int) reader,
      Relation.ReflTransGen Reader.Invokes (.ofText source limit) reader →
      reader.limit = limit ∧ reader.depth ≤ max limit 0 ∧ reader.Descends := by
  refine ⟨?_, ?_, ?_⟩
  · intro limit higher hle hshallow
    refine (parse_raise hle).resolve_left ?_
    rintro ⟨p, hdeep⟩
    exact hshallow limit p hdeep
  · intro limit nodes hread other
    exact ⟨parse_of_nesting_le hread, parse_of_lt_nesting hread⟩
  · intro limit reader hinvokes
    obtain ⟨hlimit, hdepth⟩ := Reader.depth_le_of_invokes hinvokes
    exact ⟨hlimit, hdepth, reader.descends⟩

/-- Lists that are nested three deep, with shallower lists around them, are read with the limits
three and seven to the same forms, and refused with two and with a negative limit; and a list that
is not closed is refused in the same way with three and seven. -/
theorem limit_is_sharp_at_three :
    (∃ nodes, parse "(a (b) ((c)) d) e" 7 = .ok nodes ∧ parse "(a (b) ((c)) d) e" 3 = .ok nodes ∧
      (∃ p, parse "(a (b) ((c)) d) e" 2 = .error ⟨.tooDeep 2, p⟩) ∧
      ∃ p, parse "(a (b) ((c)) d) e" (-1) = .error ⟨.tooDeep (-1), p⟩) ∧
    parse "(a ((b)" 7 = parse "(a ((b)" 3 := by
  refine ⟨?_, ?_⟩
  · obtain ⟨nodes, hnodes, hnesting⟩ : ∃ nodes ∈ (parse "(a (b) ((c)) d) e" 7).toOption,
        Node.nestingItems nodes = 3 := by
      decide +kernel
    have hread := parse_of_mem_toOption hnodes
    obtain ⟨-, hthreshold, -⟩ := limit_is_sharp_threshold "(a (b) ((c)) d) e"
    refine ⟨nodes, hread, (hthreshold 7 nodes hread 3).1 ?_, (hthreshold 7 nodes hread 2).2 ?_,
      (hthreshold 7 nodes hread (-1)).2 ?_⟩
    all_goals rw [hnesting]; decide
  · have hopen : parse "(a ((b)" 3 = .error ⟨.missingClose, ⟨3, 1, 4⟩⟩ :=
      parse_of_fault (by decide +kernel)
    obtain ⟨hraise, -, -⟩ := limit_is_sharp_threshold "(a ((b)"
    refine hraise 3 7 (by decide) fun bound p hdeep => ?_
    rw [hopen] at hdeep
    cases hdeep

end Sexpr
