import QubController.PositionRead

/-! # Keys of the terminal

`TerminalGui::read_key` takes up to eight bytes in one read and acts on the first key among
them.  The bytes behind it are dropped, and so is an escape sequence that a read cuts off:
`keys_kept_iff` says that no action is lost exactly if every read that is not empty delivers
the bytes of one key.  It holds for reads of any length. -/

namespace Qub

namespace PositionRead

/-! ### Key presses -/

inductive KeyPress
  | lowerJ | lowerK | upperJ | upperK | space | lowerQ | upperQ
  | arrowUp | arrowDown
deriving DecidableEq

/-- The bytes that the terminal sends. -/
def KeyPress.bytes : KeyPress → List Char
  | lowerJ => ['j']
  | lowerK => ['k']
  | upperJ => ['J']
  | upperK => ['K']
  | space => [' ']
  | lowerQ => ['q']
  | upperQ => ['Q']
  | arrowUp => [escape, '[', 'A']
  | arrowDown => [escape, '[', 'B']

/-- The bytes of several presses. -/
def typed (presses : List KeyPress) : List Char := presses.flatMap KeyPress.bytes

theorem typed_cons (p : KeyPress) (presses : List KeyPress) :
    typed (p :: presses) = p.bytes ++ typed presses := rfl

/-- The actions of repeated calls of `read_key`. -/
def readKeys (reads : List (List Char)) : List Key := (reads.map readKey).filter (· != .none)

theorem readKeys_cons (r : List Char) (reads : List (List Char)) :
    readKeys (r :: reads) = (if readKey r = .none then [] else [readKey r]) ++ readKeys reads := by
  by_cases h : readKey r = .none <;> simp [readKeys, h]

/-- The bytes inside an escape sequence: no key starts with them. -/
def Inert (bytes : List Char) : Prop := ∀ c ∈ bytes, c = '[' ∨ c = 'A' ∨ c = 'B'

theorem readKey_inert {c : Char} (h : c = '[' ∨ c = 'A' ∨ c = 'B') (rest : List Char) :
    readKey (c :: rest) = .none := by
  have hne : (c == escape) = false := by rcases h with rfl | rfl | rfl <;> decide
  rcases h with rfl | rfl | rfl <;> simp [readKey, hne]

/-- A press has a first byte, and the others are inert. -/
theorem bytes_eq (p : KeyPress) : ∃ c rest, p.bytes = c :: rest ∧ Inert rest := by
  cases p <;> exact ⟨_, _, rfl, by simp [Inert]⟩

/-- A press that arrives alone gives its action. -/
theorem readKey_bytes (p : KeyPress) : readKey p.bytes ≠ .none := by cases p <;> decide

/-- A part of a press gives an action only if it is the whole press. -/
theorem eq_of_readKey {p : KeyPress} {r rest : List Char} (h : r ++ rest = p.bytes)
    (hr : readKey r ≠ .none) : rest = [] := by
  have hcut : ∀ k ≤ 3, readKey (p.bytes.take k) ≠ .none → p.bytes.length ≤ k := by
    cases p <;> decide
  have hlen : r.length + rest.length = p.bytes.length := by rw [← h, List.length_append]
  have htake : p.bytes.take r.length = r := by rw [← h, List.take_left]
  have hbytes : p.bytes.length ≤ 3 := by cases p <;> decide
  have := hcut r.length (by omega) (by rwa [htake])
  exact List.eq_nil_of_length_eq_zero (by omega)

/-- The first of the typed bytes begins a press. -/
theorem typed_uncons {c : Char} {bytes : List Char} {presses : List KeyPress}
    (h : c :: bytes = typed presses) :
    ∃ p rest tail, presses = p :: rest ∧ Inert tail ∧ bytes = tail ++ typed rest := by
  cases presses with
  | nil => simp [typed] at h
  | cons p presses =>
      obtain ⟨c', tail, hp, hinert⟩ := bytes_eq p
      rw [typed_cons, hp] at h
      exact ⟨p, presses, tail, rfl, hinert, (List.cons.inj h).2⟩

/-- What is left of typed bytes after a read of `r`: the end `tail` of a press that was cut, and
whole presses. -/
theorem typed_drop (r : List Char) {rest tail : List Char} {presses : List KeyPress}
    (h : r ++ rest = tail ++ typed presses) (htail : Inert tail) :
    ∃ tail' presses', rest = tail' ++ typed presses' ∧ Inert tail' ∧ presses' <:+ presses := by
  induction r generalizing tail presses with
  | nil => exact ⟨tail, presses, h, htail, List.suffix_refl _⟩
  | cons c r ih =>
      cases tail with
      | cons c' tail =>
          rw [List.cons_append, List.cons_append] at h
          exact ih (List.cons.inj h).2 fun x hx => htail x (List.mem_cons_of_mem _ hx)
      | nil =>
          obtain ⟨p, presses, tail, rfl, hinert, htyped⟩ := typed_uncons h
          obtain ⟨tail', presses', hrest, htail', hsuffix⟩ := ih htyped hinert
          exact ⟨tail', presses', hrest, htail', hsuffix.trans (List.suffix_cons _ _)⟩

/-- There is at most one action for each press that is still whole. -/
theorem length_readKeys_le (reads : List (List Char)) {tail : List Char}
    {presses : List KeyPress} (h : reads.flatten = tail ++ typed presses) (htail : Inert tail) :
    (readKeys reads).length ≤ presses.length := by
  induction reads generalizing tail presses with
  | nil => simp [readKeys]
  | cons r reads ih =>
      rw [readKeys_cons, List.length_append]
      rw [List.flatten_cons] at h
      cases r with
      | nil => simpa [readKey] using ih h htail
      | cons c r =>
          cases tail with
          | cons c' tail =>
              obtain ⟨tail', presses', hrest, htail', hsuffix⟩ := typed_drop (c :: r) h htail
              have hc : c = c' := by
                rw [List.cons_append, List.cons_append] at h
                exact (List.cons.inj h).1
              have hnone : readKey (c :: r) = .none :=
                readKey_inert (hc ▸ htail c' List.mem_cons_self) r
              have := ih hrest htail'
              have := hsuffix.length_le
              simp only [hnone, if_true, List.length_nil]
              omega
          | nil =>
              obtain ⟨p, presses, tail, rfl, hinert, htyped⟩ := typed_uncons h
              obtain ⟨tail', presses', hrest, htail', hsuffix⟩ := typed_drop r htyped hinert
              have := ih hrest htail'
              have := hsuffix.length_le
              rw [List.length_cons]
              split <;> simp only [List.length_nil, List.length_singleton] <;> omega

/-- If there are as many actions as presses, every read took one press. -/
theorem reads_eq_bytes (reads : List (List Char)) {presses : List KeyPress}
    (h : reads.flatten = typed presses) (hlen : (readKeys reads).length = presses.length) :
    reads.filter (· != []) = presses.map KeyPress.bytes := by
  induction reads generalizing presses with
  | nil =>
      have hnil : presses = [] := List.eq_nil_of_length_eq_zero hlen.symm
      simp [hnil]
  | cons r reads ih =>
      rw [readKeys_cons, List.length_append] at hlen
      rw [List.flatten_cons] at h
      cases r with
      | nil => simpa using ih h (by simpa [readKey] using hlen)
      | cons c r =>
          obtain ⟨p, presses, tail, rfl, hinert, htyped⟩ := typed_uncons h
          obtain ⟨tail', presses', hrest, htail', hsuffix⟩ := typed_drop r htyped hinert
          have hle := length_readKeys_le reads hrest htail'
          have hsuffix_le := hsuffix.length_le
          rw [List.length_cons] at hlen
          -- this read gives an action, and the presses behind the first one are all whole
          have hkey : readKey (c :: r) ≠ .none := by
            intro hnone
            rw [if_pos hnone, List.length_nil] at hlen
            omega
          rw [if_neg hkey, List.length_singleton] at hlen
          obtain rfl : presses' = presses := hsuffix.eq_of_length (by omega)
          have hread : (c :: r) ++ tail' = p.bytes := by
            rw [hrest, typed_cons, ← List.append_assoc] at h
            exact List.append_cancel_right h
          obtain rfl : tail' = [] := eq_of_readKey hread hkey
          rw [List.append_nil] at hread
          have hfilter : ((c :: r) :: reads).filter (· != []) =
              (c :: r) :: reads.filter (· != []) := by simp
          rw [hfilter, ih hrest (by omega), hread, List.map_cons]

/-- Empty reads give no action. -/
theorem readKeys_filter (reads : List (List Char)) :
    readKeys (reads.filter (· != [])) = readKeys reads := by
  induction reads with
  | nil => rfl
  | cons r reads ih =>
      cases r with
      | nil => simpa [readKeys_cons, readKey] using ih
      | cons c r =>
          have hfilter : ((c :: r) :: reads).filter (· != []) =
              (c :: r) :: reads.filter (· != []) := by simp
          rw [hfilter, readKeys_cons, readKeys_cons, ih]

theorem length_readKeys_bytes (presses : List KeyPress) :
    (readKeys (presses.map KeyPress.bytes)).length = presses.length := by
  induction presses with
  | nil => rfl
  | cons p presses ih =>
      rw [List.map_cons, readKeys_cons, if_neg (readKey_bytes p), List.length_append, ih]
      simp [Nat.add_comm]

/-- **When batching loses no key.**  However reads split the bytes of the presses, the actions
are those of presses that arrive one by one if and only if each read that is not empty delivers
exactly one press. -/
theorem keys_kept_iff {presses : List KeyPress} {reads : List (List Char)}
    (h : reads.flatten = typed presses) :
    readKeys reads = readKeys (presses.map KeyPress.bytes) ↔
      reads.filter (· != []) = presses.map KeyPress.bytes := by
  constructor
  · intro heq
    refine reads_eq_bytes reads h ?_
    rw [heq, length_readKeys_bytes]
  · intro heq
    rw [← readKeys_filter, heq]

/-- Three presses, each in a read of its own, with an empty read between them. -/
theorem keys_kept_iff_three :
    readKeys [[escape, '[', 'A'], [], [' '], ['q']] =
      readKeys ([.arrowUp, .space, .lowerQ].map KeyPress.bytes) := by
  have h : [[escape, '[', 'A'], [], [' '], ['q']].flatten = typed [.arrowUp, .space, .lowerQ] := by
    decide
  exact (keys_kept_iff h).mpr (by decide)

/-- **A key is lost**: the loop was delayed, and Space and `q` arrive in one read. -/
theorem quit_lost :
    readKeys [[' ', 'q']] = [.toggle] ∧
      readKeys ([.space, .lowerQ].map KeyPress.bytes) = [.toggle, .quit] ∧
      [[' ', 'q']].flatten = typed [.space, .lowerQ] := by decide

end PositionRead

end Qub
