/-
The reader against the trees it reads. A tree has one spelling in tokens, and the reader takes
exactly the spellings of the trees within its limits, whatever tokens follow; a reader that
skips takes the spelling of every tree.
-/
import Slowdown.Json.Reader
import Mathlib.Tactic

namespace Slowdown

namespace Json

/-! ## Spellings -/

/-- Texts one after the other with commas between them. -/
def listed : List (List Token) → List Token
  | [] => []
  | first :: rest => first ++ rest.flatMap (.comma :: ·)

theorem comma_flatMap (pieces : List (List Token)) :
    pieces.flatMap (.comma :: ·) ++ [.comma] = .comma :: pieces.flatMap (· ++ [.comma]) := by
  induction pieces with
  | nil => rfl
  | cons piece rest ih =>
    rw [List.flatMap_cons, List.append_assoc, ih, List.flatMap_cons]
    simp

theorem listed_comma {pieces : List (List Token)} (h : pieces ≠ []) :
    listed pieces ++ [.comma] = pieces.flatMap (· ++ [.comma]) := by
  obtain ⟨first, rest, rfl⟩ := List.exists_cons_of_ne_nil h
  rw [listed, List.append_assoc, comma_flatMap]
  simp

/-- The last of some texts follows a comma, if others stand before it. -/
theorem listed_concat (pieces : List (List Token)) (last : List Token) :
    listed (pieces ++ [last]) = pieces.flatMap (· ++ [.comma]) ++ last := by
  cases pieces with
  | nil => simp [listed]
  | cons first rest =>
    rw [← listed_comma (List.cons_ne_nil first rest), List.cons_append]
    simp [listed]

theorem comma_listed {pieces : List (List Token)} (h : pieces ≠ []) (rest : List Token) :
    .comma :: (listed pieces ++ rest) = pieces.flatMap (.comma :: ·) ++ rest := by
  obtain ⟨first, others, rfl⟩ := List.exists_cons_of_ne_nil h
  simp [listed]

theorem sizeOf_member_lt {members : List (String × Json)} {m : String × Json} (h : m ∈ members) :
    sizeOf m.2 < sizeOf members := by
  have hlt := List.sizeOf_lt_of_mem h
  have hm : sizeOf m = 1 + sizeOf m.1 + sizeOf m.2 := rfl
  omega

/-- The tokens of a tree. -/
def spelling : Json → List Token
  | null => [.null]
  | bool b => [.bool b]
  | number n => [.number n]
  | string s => [.string (some s)]
  | array items => .beginArray :: (listed (items.map spelling) ++ [.endArray])
  | object members =>
    .beginObject :: (listed (members.map fun m => .string (some m.1) :: .colon :: spelling m.2)
      ++ [.endObject])
decreasing_by
  · rename_i h
    have := List.sizeOf_lt_of_mem h
    rw [array.sizeOf_spec]
    omega
  · rename_i h
    have := sizeOf_member_lt h
    rw [object.sizeOf_spec]
    omega

/-- The tokens of a member: its name, a colon and its value. -/
def memberSpelling (m : String × Json) : List Token :=
  .string (some m.1) :: .colon :: spelling m.2

theorem spelling_array (items : List Json) :
    spelling (array items) = .beginArray :: (listed (items.map spelling) ++ [.endArray]) := by
  rw [spelling]

theorem spelling_object (members : List (String × Json)) :
    spelling (object members) =
      .beginObject :: (listed (members.map memberSpelling) ++ [.endObject]) := by
  rw [spelling]
  rfl

/-- No spelling begins with the end of an array. -/
theorem exists_spelling_cons (v : Json) :
    ∃ token rest, spelling v = token :: rest ∧ token ≠ .endArray := by
  cases v <;> rw [spelling] <;> exact ⟨_, _, rfl, nofun⟩

/-! ## Limits -/

/-- Trees without a number out of range, and with at most so many arrays and objects inside each
other. -/
inductive Readable : Nat → Json → Prop
  | null {room : Nat} : Readable room .null
  | bool {room : Nat} {b : Bool} : Readable room (.bool b)
  | number {room : Nat} {n : Numeral} (inRange : (Number.ofNumeral n).isFinite = true) :
    Readable room (.number n)
  | string {room : Nat} {s : String} : Readable room (.string s)
  | array {room : Nat} {items : List Json} (inner : ∀ v ∈ items, Readable room v) :
    Readable (room + 1) (.array items)
  | object {room : Nat} {members : List (String × Json)}
      (inner : ∀ m ∈ members, Readable room m.2) :
    Readable (room + 1) (.object members)

theorem readable_number {room : Nat} {n : Numeral} :
    Readable room (.number n) ↔ (Number.ofNumeral n).isFinite = true := by
  constructor
  · rintro ⟨⟩
    assumption
  · exact .number

theorem readable_array {room : Nat} {items : List Json} :
    Readable room (.array items) ↔ 0 < room ∧ ∀ v ∈ items, Readable (room - 1) v := by
  constructor
  · rintro ⟨⟩
    exact ⟨Nat.succ_pos _, by assumption⟩
  · rintro ⟨hpos, inner⟩
    obtain ⟨inside, rfl⟩ := Nat.exists_eq_succ_of_ne_zero hpos.ne'
    exact .array inner

theorem readable_object {room : Nat} {members : List (String × Json)} :
    Readable room (.object members) ↔ 0 < room ∧ ∀ m ∈ members, Readable (room - 1) m.2 := by
  constructor
  · rintro ⟨⟩
    exact ⟨Nat.succ_pos _, by assumption⟩
  · rintro ⟨hpos, inner⟩
    obtain ⟨inside, rfl⟩ := Nat.exists_eq_succ_of_ne_zero hpos.ne'
    exact .object inner

/-- What a reader takes inside so many open arrays and objects. -/
def Mode.Admits (mode : Mode) (depth : Nat) (v : Json) : Prop :=
  match mode with
  | .read room => Readable (room - depth) v
  | .skipped => True

theorem Mode.Admits.number {mode : Mode} {depth : Nat} {n : Numeral}
    (h : mode.Admits depth (.number n)) :
    mode = .skipped ∨ (Number.ofNumeral n).isFinite = true := by
  cases mode with
  | skipped => exact .inl rfl
  | read room => exact .inr (readable_number.1 h)

theorem Mode.Admits.array {mode : Mode} {depth : Nat} {items : List Json}
    (h : mode.Admits depth (.array items)) :
    mode.allows depth = true ∧ ∀ v ∈ items, mode.Admits (depth + 1) v := by
  cases mode with
  | skipped => exact ⟨rfl, fun _ _ => trivial⟩
  | read room =>
    obtain ⟨hpos, inner⟩ := readable_array.1 h
    exact ⟨decide_eq_true (by omega), inner⟩

theorem Mode.Admits.object {mode : Mode} {depth : Nat} {members : List (String × Json)}
    (h : mode.Admits depth (.object members)) :
    mode.allows depth = true ∧ ∀ m ∈ members, mode.Admits (depth + 1) m.2 := by
  cases mode with
  | skipped => exact ⟨rfl, fun _ _ => trivial⟩
  | read room =>
    obtain ⟨hpos, inner⟩ := readable_object.1 h
    exact ⟨decide_eq_true (by omega), inner⟩

/-! ## Spellings are read -/

section

variable {mode : Mode} {state next : State} {token : Token} {outer : List Frame} {v : Json}
  {rest : List Token}

/-- How the reader goes on after a value inside some frames. -/
def resume (mode : Mode) (outer : List Frame) (v : Json) (rest : List Token) :
    Except Fault (Json × List Token) :=
  match completed v outer with
  | .inl next => run mode next rest
  | .inr v => .ok (v, rest)

theorem run_of_next (h : step mode state token = .ok (.inl next)) :
    run mode state (token :: rest) = run mode next rest := by
  rw [run, h]

theorem run_of_completed (h : step mode state token = .ok (completed v outer)) :
    run mode state (token :: rest) = resume mode outer v rest := by
  rw [run, h, resume]
  cases completed v outer <;> rfl

/-- The first item of an array is read as any value. -/
theorem run_firstItem (v : Json) :
    run mode (.firstItem outer) (spelling v ++ rest) =
      run mode (.value (.array [] :: outer)) (spelling v ++ rest) := by
  obtain ⟨token, more, hv, hne⟩ := exists_spelling_cons v
  have hstep : step mode (.firstItem outer) token = step mode (.value (.array [] :: outer)) token :=
    if_neg hne
  rw [hv, List.cons_append, run, run, hstep]

/-- Further items, each of which is read as a value, up to the end of the array. -/
theorem run_afterItem {more : List Json} (items : List Json)
    (each : ∀ v ∈ more, ∀ items rest,
      run mode (.value (.array items :: outer)) (spelling v ++ rest) =
        run mode (.afterItem (v :: items) outer) rest) :
    run mode (.afterItem items outer)
        ((more.map spelling).flatMap (.comma :: ·) ++ .endArray :: rest) =
      resume mode outer (.array (items.reverse ++ more)) rest := by
  induction more generalizing items with
  | nil => rw [List.append_nil]; exact run_of_completed rfl
  | cons v more ih =>
    rw [List.map_cons, List.flatMap_cons, List.cons_append, List.cons_append, List.append_assoc,
      run_of_next rfl, each v List.mem_cons_self,
      ih _ fun w hw => each w (List.mem_cons_of_mem _ hw), List.reverse_cons, List.append_assoc]
    rfl

/-- A member is its name, a colon and a value. -/
theorem run_name {members : List (String × Json)} (m : String × Json) :
    run mode (.name members outer) (memberSpelling m ++ rest) =
      run mode (.value (.object members m.1 :: outer)) (spelling m.2 ++ rest) := by
  rw [memberSpelling, List.cons_append, List.cons_append, run_of_next rfl, run_of_next rfl]

theorem run_firstMember (m : String × Json) :
    run mode (.firstMember outer) (memberSpelling m ++ rest) =
      run mode (.value (.object [] m.1 :: outer)) (spelling m.2 ++ rest) := by
  rw [memberSpelling, List.cons_append, List.cons_append, run_of_next rfl, run_of_next rfl]

/-- Further members, the value of each of which is read, up to the end of the object. -/
theorem run_afterMember {more : List (String × Json)} (members : List (String × Json))
    (each : ∀ m ∈ more, ∀ members rest,
      run mode (.value (.object members m.1 :: outer)) (spelling m.2 ++ rest) =
        run mode (.afterMember (m :: members) outer) rest) :
    run mode (.afterMember members outer)
        ((more.map memberSpelling).flatMap (.comma :: ·) ++ .endObject :: rest) =
      resume mode outer (.object (members.reverse ++ more)) rest := by
  induction more generalizing members with
  | nil => rw [List.append_nil]; exact run_of_completed rfl
  | cons m more ih =>
    rw [List.map_cons, List.flatMap_cons, List.cons_append, List.cons_append, List.append_assoc,
      run_of_next rfl, run_name, each m List.mem_cons_self,
      ih _ fun w hw => each w (List.mem_cons_of_mem _ hw), List.reverse_cons, List.append_assoc]
    rfl

/-- Inside any frames the spelling of a tree that the reader admits is read as this tree. -/
theorem run_spelling (admitted : mode.Admits outer.length v) :
    run mode (.value outer) (spelling v ++ rest) = resume mode outer v rest := by
  induction v using spelling.induct generalizing outer rest with
  | case1 => rw [spelling]; exact run_of_completed rfl
  | case2 b => rw [spelling]; exact run_of_completed rfl
  | case3 n => rw [spelling]; exact run_of_completed (if_pos admitted.number)
  | case4 s => rw [spelling]; exact run_of_completed rfl
  | case5 items ih =>
    obtain ⟨allowed, inner⟩ := admitted.array
    have opened : step mode (.value outer) .beginArray = .ok (.inl (.firstItem outer)) :=
      if_pos allowed
    rw [spelling_array, List.cons_append, run_of_next opened]
    cases items with
    | nil => exact run_of_completed rfl
    | cons first more =>
      -- the induction hypothesis, for each item inside the array that has been opened
      have each : ∀ w ∈ first :: more, ∀ items rest,
          run mode (.value (.array items :: outer)) (spelling w ++ rest) =
            run mode (.afterItem (w :: items) outer) rest := by
        intro w hw items rest
        exact ih w hw (inner w hw)
      rw [List.map_cons, listed, List.append_assoc, List.append_assoc, run_firstItem,
        each first List.mem_cons_self, List.singleton_append,
        run_afterItem _ fun w hw => each w (List.mem_cons_of_mem _ hw)]
      rfl
  | case6 members ih =>
    obtain ⟨allowed, inner⟩ := admitted.object
    have opened : step mode (.value outer) .beginObject = .ok (.inl (.firstMember outer)) :=
      if_pos allowed
    rw [spelling_object, List.cons_append, run_of_next opened]
    cases members with
    | nil => exact run_of_completed rfl
    | cons first more =>
      -- and for the value of each member inside the object
      have each : ∀ m ∈ first :: more, ∀ members rest,
          run mode (.value (.object members m.1 :: outer)) (spelling m.2 ++ rest) =
            run mode (.afterMember (m :: members) outer) rest := by
        intro m hm members rest
        exact ih m hm (inner m hm)
      rw [List.map_cons, listed, List.append_assoc, List.append_assoc, run_firstMember,
        each first List.mem_cons_self, List.singleton_append,
        run_afterMember _ fun w hw => each w (List.mem_cons_of_mem _ hw)]
      rfl

end

/-! ## Only spellings are read -/

/-- The tokens that have been taken for an open array or object. -/
def Frame.taken : Frame → List Token
  | .array items => .beginArray :: (items.reverse.map spelling).flatMap (· ++ [.comma])
  | .object members name =>
    .beginObject :: ((members.reverse.map memberSpelling).flatMap (· ++ [.comma])
      ++ [.string (some name), .colon])

/-- The tokens that have been taken for all frames, the outermost first. -/
def framesTaken (outer : List Frame) : List Token := outer.reverse.flatMap Frame.taken

theorem framesTaken_cons (frame : Frame) (outer : List Frame) :
    framesTaken (frame :: outer) = framesTaken outer ++ frame.taken := by
  simp [framesTaken]

/-- The tokens by which a state has been reached; what stands before an open frame first. -/
def State.taken : State → List Token
  | .value outer => framesTaken outer
  | .firstItem outer => framesTaken outer ++ [.beginArray]
  | .firstMember outer => framesTaken outer ++ [.beginObject]
  | .name members outer =>
    framesTaken outer ++
      .beginObject :: (members.reverse.map memberSpelling).flatMap (· ++ [.comma])
  | .colon members last outer =>
    framesTaken outer ++ .beginObject ::
      ((members.reverse.map memberSpelling).flatMap (· ++ [.comma]) ++ [.string (some last)])
  | .afterItem items outer =>
    framesTaken outer ++ .beginArray :: listed (items.reverse.map spelling)
  | .afterMember members outer =>
    framesTaken outer ++ .beginObject :: listed (members.reverse.map memberSpelling)

/-- Every value that a frame holds has room in it. -/
def Frame.Within (room : Nat) : Frame → Prop
  | .array items => ∀ v ∈ items, Readable room v
  | .object members _ => ∀ m ∈ members, Readable room m.2

/-- Every frame has room for what it holds. -/
def FramesWithin (room : Nat) : List Frame → Prop
  | [] => True
  | frame :: outer =>
    outer.length < room ∧ frame.Within (room - outer.length - 1) ∧ FramesWithin room outer

/-- Every frame of a state has room for what it holds; one that a comma or its end has to follow is
not empty. -/
def State.Within (room : Nat) : State → Prop
  | .value outer => FramesWithin room outer
  | .firstItem outer | .firstMember outer => outer.length < room ∧ FramesWithin room outer
  | .name members outer => FramesWithin room (.object members "" :: outer)
  | .colon members last outer => FramesWithin room (.object members last :: outer)
  | .afterItem items outer => items ≠ [] ∧ FramesWithin room (.array items :: outer)
  | .afterMember members outer => members ≠ [] ∧ FramesWithin room (.object members "" :: outer)

/-- What a step leads to is within the limits and stands for the tokens taken. -/
def Reached (room : Nat) (tokens : List Token) : State ⊕ Json → Prop
  | .inl next => next.Within room ∧ next.taken = tokens
  | .inr v => Readable room v ∧ spelling v = tokens

section

variable {room : Nat} {state : State} {token : Token} {outer : List Frame} {v : Json}
  {next : State ⊕ Json}

theorem reached_completed (within : FramesWithin room outer)
    (readable : Readable (room - outer.length) v) :
    Reached room (framesTaken outer ++ spelling v) (completed v outer) := by
  match outer with
  | [] => exact ⟨readable, by simp [framesTaken]⟩
  -- the value becomes the newest item of the array around it
  | .array items :: outer =>
    obtain ⟨hlt, hitems, hrest⟩ := within
    refine ⟨⟨List.cons_ne_nil _ _, hlt, ?_, hrest⟩, ?_⟩
    · intro w hw
      rcases List.mem_cons.1 hw with rfl | hw
      · exact readable
      · exact hitems w hw
    · rw [framesTaken_cons, State.taken, Frame.taken, List.reverse_cons, List.map_append,
        List.map_singleton, listed_concat]
      simp
  -- or the newest member of the object
  | .object members name :: outer =>
    obtain ⟨hlt, hmembers, hrest⟩ := within
    refine ⟨⟨List.cons_ne_nil _ _, hlt, ?_, hrest⟩, ?_⟩
    · intro m hm
      rcases List.mem_cons.1 hm with rfl | hm
      · exact readable
      · exact hmembers m hm
    · rw [framesTaken_cons, State.taken, Frame.taken, List.reverse_cons, List.map_append,
        List.map_singleton, listed_concat]
      simp [memberSpelling]

/-- An array is closed after the items taken. -/
theorem reached_array {items : List Json} (within : FramesWithin room (.array items :: outer)) :
    Reached room
      (framesTaken outer ++
        .beginArray :: (listed (items.reverse.map spelling) ++ [.endArray]))
      (completed (.array items.reverse) outer) := by
  obtain ⟨hlt, hitems, hrest⟩ := within
  have readable : Readable (room - outer.length) (.array items.reverse) :=
    readable_array.2 ⟨by omega, fun v hv => hitems v (List.mem_reverse.1 hv)⟩
  rw [← spelling_array]
  exact reached_completed hrest readable

/-- An object is closed after the members taken. -/
theorem reached_object {members : List (String × Json)} {name : String}
    (within : FramesWithin room (.object members name :: outer)) :
    Reached room
      (framesTaken outer ++
        .beginObject :: (listed (members.reverse.map memberSpelling) ++ [.endObject]))
      (completed (.object members.reverse) outer) := by
  obtain ⟨hlt, hmembers, hrest⟩ := within
  have readable : Readable (room - outer.length) (.object members.reverse) :=
    readable_object.2 ⟨by omega, fun m hm => hmembers m (List.mem_reverse.1 hm)⟩
  rw [← spelling_object]
  exact reached_completed hrest readable

theorem reached_valueStep (within : FramesWithin room outer)
    (h : valueStep (.read room) outer token = .ok next) :
    Reached room (framesTaken outer ++ [token]) next := by
  unfold valueStep at h
  split at h
  · -- an opening mark needs room for one more level
    split at h
    · rename_i allowed
      cases h
      exact ⟨⟨of_decide_eq_true allowed, within⟩, rfl⟩
    · cases h
  · split at h
    · rename_i allowed
      cases h
      exact ⟨⟨of_decide_eq_true allowed, within⟩, rfl⟩
    · cases h
  · cases h
    rw [← spelling]
    exact reached_completed within .null
  · cases h
    rw [← spelling]
    exact reached_completed within .bool
  · split at h
    · rename_i inRange
      cases h
      rw [← spelling]
      exact reached_completed within (.number (inRange.resolve_left nofun))
    · cases h
  · cases h
    rw [← spelling]
    exact reached_completed within .string
  -- no other token begins a value
  all_goals cases h

theorem reached_nameStep {members : List (String × Json)}
    (within : FramesWithin room (.object members "" :: outer))
    (h : nameStep (.read room) members outer token = .ok next) :
    Reached room ((State.name members outer).taken ++ [token]) next := by
  unfold nameStep at h
  split at h
  · cases h
    exact ⟨within, by simp [State.taken]⟩
  all_goals cases h

/-- A step takes one token, and what is open stays within the limits. -/
theorem reached_step (within : state.Within room) (h : step (.read room) state token = .ok next) :
    Reached room (state.taken ++ [token]) next := by
  cases state with
  | value outer => exact reached_valueStep within h
  | firstItem outer =>
    obtain ⟨hlt, hrest⟩ := within
    have inside : FramesWithin room (.array [] :: outer) := ⟨hlt, List.forall_mem_nil _, hrest⟩
    simp only [step] at h
    split at h
    · rename_i hend
      cases h
      rw [hend, State.taken, List.append_assoc]
      exact reached_array inside
    · have reached := reached_valueStep inside h
      rwa [framesTaken_cons] at reached
  | firstMember outer =>
    obtain ⟨hlt, hrest⟩ := within
    have inside : FramesWithin room (.object [] "" :: outer) :=
      ⟨hlt, List.forall_mem_nil _, hrest⟩
    simp only [step] at h
    split at h
    · rename_i hend
      cases h
      rw [hend, State.taken, List.append_assoc]
      exact reached_object inside
    · exact reached_nameStep inside h
  | name members outer => exact reached_nameStep within h
  | colon members last outer =>
    simp only [step] at h
    split at h
    · rename_i hcolon
      cases h
      refine ⟨within, ?_⟩
      simp [State.taken, framesTaken_cons, Frame.taken, hcolon]
    · cases h
  | afterItem items outer =>
    obtain ⟨hne, inside⟩ := within
    simp only [step] at h
    split at h
    · rename_i hcomma
      cases h
      -- the comma belongs to the items before it
      refine ⟨inside, ?_⟩
      rw [hcomma, State.taken, State.taken, framesTaken_cons, Frame.taken,
        ← listed_comma (by simpa using hne), List.append_assoc, List.cons_append]
    · split at h
      · rename_i hend
        cases h
        rw [hend, State.taken, List.append_assoc, List.cons_append]
        exact reached_array inside
      · cases h
  | afterMember members outer =>
    obtain ⟨hne, inside⟩ := within
    simp only [step] at h
    split at h
    · rename_i hcomma
      cases h
      refine ⟨inside, ?_⟩
      rw [hcomma, State.taken, State.taken, ← listed_comma (by simpa using hne), List.append_assoc,
        List.cons_append]
    · split at h
      · rename_i hend
        cases h
        rw [hend, State.taken, List.append_assoc, List.cons_append]
        exact reached_object inside
      · cases h

theorem taken_of_run {ts rest : List Token} (within : state.Within room)
    (h : run (.read room) state ts = .ok (v, rest)) :
    Readable room v ∧ state.taken ++ ts = spelling v ++ rest := by
  induction ts generalizing state with
  | nil => cases h
  | cons token ts ih =>
    unfold run at h
    split at h
    · cases h
    · rename_i next hstep
      obtain ⟨within', htaken⟩ := reached_step within hstep
      obtain ⟨readable, hspelled⟩ := ih within' h
      exact ⟨readable, by rw [← hspelled, htaken, List.append_assoc, List.singleton_append]⟩
    · rename_i w hstep
      cases h
      obtain ⟨readable, hspelled⟩ := reached_step within hstep
      exact ⟨readable, by rw [hspelled, List.append_assoc, List.singleton_append]⟩

end

/-! ## Values -/

theorem value_spelling {mode : Mode} {v : Json} (admitted : mode.Admits 0 v) (rest : List Token) :
    value mode (spelling v ++ rest) = .ok (v, rest) :=
  run_spelling (show mode.Admits ([] : List Frame).length v from admitted)

/-- The reader takes exactly the spellings of the trees within its limits. -/
theorem value_eq_ok_iff {room : Nat} {ts rest : List Token} {v : Json} :
    value (.read room) ts = .ok (v, rest) ↔ Readable room v ∧ ts = spelling v ++ rest := by
  constructor
  · intro h
    have start : (State.value []).Within room := trivial
    exact taken_of_run start h
  · rintro ⟨readable, rfl⟩
    have admitted : (Mode.read room).Admits 0 v := readable
    exact value_spelling admitted rest

/-- A text holds a tree exactly if its tokens spell it. -/
theorem ofText_eq_ok_iff {cs : List Char} {v : Json} :
    ofText cs = .ok v ↔ Readable maxDepth v ∧ tokens cs = spelling v := by
  have hvalue : value (.read maxDepth) (tokens cs) = .ok (v, []) ↔
      Readable maxDepth v ∧ tokens cs = spelling v ++ [] := value_eq_ok_iff
  rw [List.append_nil] at hvalue
  rw [← hvalue, ofText]
  split <;> simp_all

end Json

end Slowdown
