import DeclarativeMdp.Proofs.Term.Completeness
import DeclarativeMdp.Proofs.Text.Bytes
import Mathlib.Data.String.Basic

set_option autoImplicit false

namespace DeclarativeMdp.Term

open Text

variable {A B : Type} {read next : List Char → Except Stop (A × List Char)} {cs : List Char}

def unread : Except Stop (A × List Char) → List Char
  | .ok (_, rest) => rest
  | .error stop => stop.rest

def leaving (rest : List Char) : Except Stop (A × List Char) → Except Stop (A × List Char)
  | .ok (value, _) => .ok (value, rest)
  | .error stop => .error ⟨stop.flaw, rest⟩

@[simp]
theorem unread_leaving (rest : List Char) (outcome : Except Stop (A × List Char)) :
    unread (leaving rest outcome) = rest := by
  cases outcome <;> rfl

@[simp]
theorem leaving_leaving (rest more : List Char) (outcome : Except Stop (A × List Char)) :
    leaving rest (leaving more outcome) = leaving rest outcome := by
  cases outcome <;> rfl

@[simp]
theorem unread_map (f : A → B) (outcome : Except Stop (A × List Char)) :
    unread (outcome.map fun (value, rest) => (f value, rest)) = unread outcome := by
  cases outcome <;> rfl

@[simp]
theorem leaving_map (f : A → B) (rest : List Char) (outcome : Except Stop (A × List Char)) :
    leaving rest (outcome.map fun (value, rest) => (f value, rest)) =
      (leaving rest outcome).map fun (value, rest) => (f value, rest) := by
  cases outcome <;> rfl

-- The character that the reader stopped at may have been looked at, so it stays.
def Decided (read : List Char → Except Stop (A × List Char)) (cs : List Char) : Prop :=
  ∃ front, cs = front ++ unread (read cs) ∧ ∀ c later other, unread (read cs) = c :: later →
    read (front ++ c :: other) = leaving (c :: other) (read cs)

theorem Decided.length_le (decided : Decided read cs) : (unread (read cs)).length ≤ cs.length := by
  obtain ⟨front, parts, -⟩ := decided
  have whole := congrArg List.length parts
  rw [List.length_append] at whole
  omega

theorem decided_of_unread_eq_nil (nothing : unread (read cs) = []) : Decided read cs := by
  refine ⟨cs, by simp [nothing], ?_⟩
  intro c later other some
  simp [nothing] at some

theorem decided_of_leaving (outcome : Except Stop (A × List Char))
    (same : ∀ cs, read cs = leaving cs outcome) : Decided read cs := by
  refine ⟨[], by simp [same], ?_⟩
  intro c later other _
  simp [same]

theorem decided_ok (value : A) : Decided (fun cs => .ok (value, cs)) cs :=
  decided_of_leaving (.ok (value, [])) fun _ => rfl

theorem decided_error (flaw : Flaw) :
    Decided (fun cs => (.error ⟨flaw, cs⟩ : Except Stop (A × List Char))) cs :=
  decided_of_leaving (.error ⟨flaw, []⟩) fun _ => rfl

theorem decided_cons {c : Char} (next : List Char → Except Stop (A × List Char))
    (same : ∀ cs, read (c :: cs) = next cs)
    (decided : Decided next cs) : Decided read (c :: cs) := by
  obtain ⟨front, parts, constant⟩ := decided
  rw [Decided, same]
  refine ⟨c :: front, by rw [List.cons_append, ← parts], ?_⟩
  intro d later other stopped
  rw [List.cons_append, same]
  exact constant d later other stopped

theorem decided_of_head {c : Char} (same : ∀ cs, read (c :: cs) = next (c :: cs))
    (decided : Decided next (c :: cs)) : Decided read (c :: cs) := by
  obtain ⟨front, parts, constant⟩ := decided
  rw [Decided, same]
  refine ⟨front, parts, ?_⟩
  intro d later other stopped
  rw [← constant d later other stopped]
  rw [stopped] at parts
  cases front with
  | nil =>
    obtain ⟨rfl, -⟩ := List.cons.inj parts
    exact same other
  | cons e front =>
    obtain ⟨rfl, -⟩ := List.cons.inj parts
    exact same _

theorem decided_at {c : Char} (outcome : Except Stop (A × List Char))
    (same : ∀ cs, read (c :: cs) = leaving (c :: cs) outcome) : Decided read (c :: cs) :=
  decided_of_head same (decided_of_leaving outcome fun _ => rfl)

theorem decided_of_skipBlanks (blind : ∀ cs, read (skipBlanks cs) = read cs)
    (decided : Decided read (skipBlanks cs)) : Decided read cs := by
  obtain ⟨gap, blanks, whole⟩ := exists_blanks cs
  obtain ⟨front, parts, constant⟩ := decided
  rw [blind] at parts constant
  refine ⟨gap ++ front, by rw [List.append_assoc, ← parts, ← whole], ?_⟩
  intro c later other stopped
  rw [← constant c later other stopped, List.append_assoc, ← blind, skipBlanks_append blanks,
    blind]

theorem Decided.map (f : A → B) (decided : Decided read cs) :
    Decided (fun cs => (read cs).map fun (value, rest) => (f value, rest)) cs := by
  obtain ⟨front, parts, constant⟩ := decided
  refine ⟨front, by rwa [unread_map], ?_⟩
  intro c later other stopped
  rw [unread_map] at stopped
  dsimp only
  rw [leaving_map, constant c later other stopped]

-- Either the second reader stopped where the first did, or the first one stopped at a character
-- that the second has read. Both times the first finds what it has found before.
theorem Decided.bind {after : A → List Char → Except Stop (B × List Char)}
    (first : Decided read cs)
    (second : ∀ value rest, read cs = .ok (value, rest) → Decided (after value) rest) :
    Decided (fun cs => read cs >>= fun (value, rest) => after value rest) cs := by
  obtain ⟨front, parts, constant⟩ := first
  unfold Decided
  dsimp only
  cases outcome : read cs with
  | error stop =>
    rw [outcome] at parts constant
    refine ⟨front, parts, ?_⟩
    intro c later other stopped
    rw [constant c later other stopped]
    rfl
  | ok found =>
    obtain ⟨value, rest⟩ := found
    obtain ⟨more, further, inWorld⟩ := second value rest outcome
    rw [outcome] at parts constant
    change cs = front ++ rest at parts
    refine ⟨front ++ more, ?_, ?_⟩
    · rw [List.append_assoc]
      exact parts.trans (congrArg (front ++ ·) further)
    · intro c later other stopped
      change unread (after value rest) = c :: later at stopped
      rw [stopped] at further
      have extended : read (front ++ (more ++ c :: other)) = .ok (value, more ++ c :: other) := by
        cases more with
        | nil => exact constant c later other further
        | cons d more => exact constant d _ _ further
      rw [List.append_assoc, extended]
      exact inWorld c later other stopped

def readWhile (p : Char → Bool) (cs : List Char) : Except Stop (List Char × List Char) :=
  .ok (cs.takeWhile p, cs.dropWhile p)

theorem decided_readWhile (p : Char → Bool) : Decided (readWhile p) cs := by
  refine ⟨cs.takeWhile p, List.takeWhile_append_dropWhile.symm, ?_⟩
  intro c later other stopped
  change cs.dropWhile p = c :: later at stopped
  have outside : Outside p (c :: other) := by
    rintro d ⟨⟩
    have refused := List.head?_dropWhile_not p cs
    rwa [stopped] at refused
  obtain ⟨taken, dropped⟩ := span_exact (List.all_eq_true.1 List.all_takeWhile) outside
  rw [readWhile, taken, dropped]
  rfl

def numberOf (negative : Bool) (ds : List Char) (rest : List Char) :
    Except Stop (Term × List Char) :=
  match integer? negative ds with
  | some value => .ok (.number value, rest)
  | none => .error ⟨.invalidInteger, rest⟩

theorem decided_digits (negative : Bool) :
    Decided (fun cs => readWhile Char.isDigit cs >>= fun (ds, rest) => numberOf negative ds rest)
      cs := by
  refine (decided_readWhile Char.isDigit).bind fun ds rest _ => ?_
  refine decided_of_leaving (numberOf negative ds []) fun rest => ?_
  unfold numberOf
  cases integer? negative ds <;> rfl

theorem decided_readNumber (c : Char) : Decided readNumber (c :: cs) := by
  by_cases negative : c = '-'
  · rw [negative]
    exact decided_cons _ (fun cs => rfl) (decided_digits true)
  · refine decided_of_head (fun cs => ?_) (decided_digits false)
    have unsigned : ¬ (c :: cs).head? = some '-' := by simpa using negative
    simp only [readNumber, unsigned, decide_false, if_false]
    rfl

theorem readString_plain {c : Char} (unescaped : c ≠ '\\') (unquoted : c ≠ '"')
    (cs : List Char) :
    readString (c :: cs) =
      (readString cs).map fun (content, rest) => (c :: content, rest) := by
  rw [readString.eq_def]
  split
  next same => simp at same
  next same => exact absurd (List.cons.inj same).1 unescaped
  next same => exact absurd (List.cons.inj same).1 unescaped
  next same =>
    obtain ⟨rfl, rfl⟩ := List.cons.inj same
    exact if_neg unquoted

theorem decided_readString (cs : List Char) : Decided readString cs := by
  fun_induction readString cs with
  | case1 => exact decided_of_unread_eq_nil rfl
  | case2 => exact decided_of_unread_eq_nil rfl
  | case3 c cs ih =>
    refine decided_cons (fun cs => readString ('\\' :: cs)) (fun _ => rfl) ?_
    exact decided_cons _ (fun cs => by rw [readString]) (ih.map _)
  | case4 cs =>
    exact decided_cons _ (fun cs => by simp [readString]) (decided_ok [])
  | case5 c cs notEnd notEscape unquoted ih =>
    have unescaped : c ≠ '\\' := by
      rintro rfl
      cases cs with
      | nil => exact notEnd rfl rfl
      | cons d cs => exact notEscape d cs rfl rfl
    exact decided_cons _ (readString_plain unescaped unquoted) (ih.map _)

theorem visible_of_skipBlanks {c : Char} {rest : List Char} (shown : skipBlanks cs = c :: rest) :
    isBlank c = false := by
  have refused := List.head?_dropWhile_not isBlank cs
  unfold skipBlanks at shown
  rwa [shown] at refused

theorem decided_afterName {fuel : Nat} (args : ∀ cs, Decided (readArgs fuel) cs) (name : String)
    (cs : List Char) : Decided (fun cs => afterName fuel name (skipBlanks cs)) cs := by
  refine decided_of_skipBlanks (fun cs => by rw [skipBlanks_skipBlanks]) ?_
  cases shown : skipBlanks cs with
  | nil => exact decided_of_unread_eq_nil rfl
  | cons c cs =>
    have visible := visible_of_skipBlanks shown
    by_cases opened : c = '('
    next =>
      rw [opened]
      exact decided_cons _ (fun _ => rfl) ((args cs).map _)
    next =>
      refine decided_at (.ok (.symbol name, [])) fun cs => ?_
      rw [skipBlanks_cons visible, afterName.eq_def]
      split
      next same => exact absurd (List.cons.inj same).1 opened
      next => rfl

theorem decided_readTerm {fuel : Nat} (args : ∀ cs, Decided (readArgs fuel) cs) (cs : List Char) :
    Decided (readTerm (fuel + 1)) cs := by
  refine decided_of_skipBlanks (readTerm_skipBlanks fuel) ?_
  cases shown : skipBlanks cs with
  | nil => exact decided_of_unread_eq_nil rfl
  | cons c cs =>
    have visible := visible_of_skipBlanks shown
    by_cases numeric : c = '-' ∨ c.isDigit
    next =>
      refine decided_of_head (fun cs => ?_) (decided_readNumber c)
      simp only [readTerm, skipBlanks_cons visible, numeric, if_true]
    by_cases quoted : c = '"'
    next =>
      rw [quoted]
      refine decided_cons _ (fun cs => ?_)
        ((decided_readString cs).map fun content => .text (String.ofList content))
      rw [readTerm, skipBlanks_cons (by decide)]
      rfl
    by_cases opened : c = '('
    next =>
      rw [opened]
      refine decided_cons _ (fun cs => ?_) ((args cs).map (.function ""))
      rw [readTerm, skipBlanks_cons (by decide)]
      rfl
    by_cases started : isNameStart c
    next =>
      refine decided_cons _ (fun cs => ?_) ((decided_readWhile isNameChar).bind
        fun ds rest _ => decided_afterName args (String.ofList (c :: ds)) rest)
      simp only [readTerm, skipBlanks_cons visible, numeric, quoted, opened, started, if_true,
        if_false]
      rfl
    by_cases upper : c.isUpper
    next =>
      refine decided_at (.error ⟨.variable, []⟩) fun cs => ?_
      simp only [readTerm, skipBlanks_cons visible, numeric, quoted, opened, started, upper,
        if_true, if_false]
      rfl
    next =>
      refine decided_at (.error ⟨.unexpectedCharacter, []⟩) fun cs => ?_
      simp only [readTerm, skipBlanks_cons visible, numeric, quoted, opened, started, upper,
        if_false]
      rfl

def afterArg (fuel : Nat) (t : Term) (cs : List Char) : Except Stop (List Term × List Char) :=
  match skipBlanks cs with
  | ',' :: cs => (readArgs fuel cs).map fun (terms, rest) => (t :: terms, rest)
  | ')' :: rest => .ok ([t], rest)
  | rest => .error ⟨.missingSeparator, rest.drop 1⟩

theorem readArgs_cons {c : Char} (fuel : Nat) (visible : isBlank c = false) (filled : c ≠ ')')
    (cs : List Char) :
    readArgs (fuel + 1) (c :: cs) =
      readTerm fuel (c :: cs) >>= fun (t, rest) => afterArg fuel t rest := by
  rw [readArgs, skipBlanks_cons visible]
  split
  next same => exact absurd (List.cons.inj same).1 filled
  next => rfl

theorem readArgs_nil (fuel : Nat) : readArgs (fuel + 1) [] = .error ⟨.unexpectedEnd, []⟩ := by
  cases fuel <;> rfl

theorem decided_afterArg {fuel : Nat} (args : ∀ cs, Decided (readArgs fuel) cs) (t : Term)
    (cs : List Char) : Decided (afterArg fuel t) cs := by
  refine decided_of_skipBlanks (fun cs => by rw [afterArg, skipBlanks_skipBlanks]; rfl) ?_
  cases shown : skipBlanks cs with
  | nil => exact decided_of_unread_eq_nil rfl
  | cons c cs =>
    have visible := visible_of_skipBlanks shown
    by_cases comma : c = ','
    next =>
      rw [comma]
      exact decided_cons _ (fun _ => rfl) ((args cs).map (t :: ·))
    by_cases closed : c = ')'
    next =>
      rw [closed]
      exact decided_cons _ (fun _ => rfl) (decided_ok [t])
    next =>
      refine decided_cons _ (fun cs => ?_) (decided_error .missingSeparator)
      rw [afterArg, skipBlanks_cons visible]
      split
      next same => exact absurd (List.cons.inj same).1 comma
      next same => exact absurd (List.cons.inj same).1 closed
      next => rfl

theorem decided_readArgs {fuel : Nat} (terms : ∀ cs, Decided (readTerm fuel) cs)
    (args : ∀ cs, Decided (readArgs fuel) cs) (cs : List Char) :
    Decided (readArgs (fuel + 1)) cs := by
  refine decided_of_skipBlanks (readArgs_skipBlanks fuel) ?_
  cases shown : skipBlanks cs with
  | nil => exact decided_of_unread_eq_nil (by rw [readArgs_nil]; rfl)
  | cons c cs =>
    have visible := visible_of_skipBlanks shown
    by_cases closed : c = ')'
    next =>
      rw [closed]
      refine decided_cons _ (fun cs => ?_) (decided_ok [])
      rw [readArgs, skipBlanks_cons (by decide)]
      rfl
    next =>
      exact decided_of_head (readArgs_cons fuel visible closed)
        ((terms _).bind fun t rest _ => decided_afterArg args t rest)

-- By induction on the fuel. Without any, all of the text is left.
theorem decided_of_fuel (fuel : Nat) :
    (∀ cs, Decided (readTerm fuel) cs) ∧ ∀ cs, Decided (readArgs fuel) cs := by
  induction fuel with
  | zero =>
    constructor
    · exact fun cs => decided_error .unexpectedEnd
    · exact fun cs => decided_error .unexpectedEnd
  | succ fuel ih => exact ⟨decided_readTerm ih.2, decided_readArgs ih.1 ih.2⟩

theorem length_skipBlanks_le (cs : List Char) : (skipBlanks cs).length ≤ cs.length :=
  (List.dropWhile_sublist isBlank).length_le

theorem readTerm_succ {fuel : Nat} {cs : List Char}
    (args : ∀ inner, inner.length < cs.length → readArgs (fuel + 1) inner = readArgs fuel inner) :
    readTerm (fuel + 2) cs = readTerm (fuel + 1) cs := by
  have shorter := length_skipBlanks_le cs
  rw [readTerm, readTerm]
  cases shown : skipBlanks cs with
  | nil => rfl
  | cons c ds =>
    rw [shown, List.length_cons] at shorter
    have behind : (skipBlanks (ds.dropWhile isNameChar)).length ≤ ds.length :=
      (length_skipBlanks_le _).trans (List.dropWhile_sublist isNameChar).length_le
    dsimp only
    rw [args ds (by omega)]
    split_ifs with numeric quoted opened started upper
    · rfl
    · rfl
    · rfl
    · split
      next more =>
        rw [more, List.length_cons] at behind
        rw [args _ (by omega)]
      next => rfl
    · rfl
    · rfl

theorem readArgs_succ {fuel : Nat} {cs : List Char}
    (terms : ∀ inner, inner.length ≤ cs.length → readTerm (fuel + 1) inner = readTerm fuel inner)
    (args : ∀ inner, inner.length < cs.length → readArgs (fuel + 1) inner = readArgs fuel inner) :
    readArgs (fuel + 2) cs = readArgs (fuel + 1) cs := by
  have shorter := length_skipBlanks_le cs
  rw [← readArgs_skipBlanks, ← readArgs_skipBlanks fuel]
  cases shown : skipBlanks cs with
  | nil => rw [readArgs_nil, readArgs_nil]
  | cons c ds =>
    rw [shown] at shorter
    have visible := visible_of_skipBlanks shown
    by_cases closed : c = ')'
    next =>
      rw [closed, readArgs, readArgs, skipBlanks_cons (by decide)]
      rfl
    next =>
      rw [readArgs_cons _ visible closed, readArgs_cons _ visible closed, terms _ shorter]
      cases outcome : readTerm fuel (c :: ds) with
      | error => rfl
      | ok found =>
        obtain ⟨t, rest⟩ := found
        have unread := ((decided_of_fuel fuel).1 (c :: ds)).length_le
        rw [outcome] at unread
        change rest.length ≤ _ at unread
        have further := length_skipBlanks_le rest
        change afterArg (fuel + 1) t rest = afterArg fuel t rest
        rw [afterArg, afterArg]
        split
        next comma =>
          rw [comma, List.length_cons] at further
          rw [args _ (by omega)]
        next => rfl
        next => rfl

-- By induction on the fuel. A term gives one to its arguments, and these are behind an opening.
theorem read_succ (fuel : Nat) :
    (∀ cs : List Char, 2 * cs.length + 1 ≤ fuel → readTerm (fuel + 1) cs = readTerm fuel cs) ∧
      ∀ cs : List Char, 2 * cs.length + 2 ≤ fuel → readArgs (fuel + 1) cs = readArgs fuel cs := by
  induction fuel with
  | zero => constructor <;> intros <;> omega
  | succ fuel ih =>
    constructor
    · intro cs enough
      exact readTerm_succ fun inner shorter => ih.2 inner (by omega)
    · intro cs enough
      exact readArgs_succ (fun inner shorter => ih.1 inner (by omega))
        fun inner shorter => ih.2 inner (by omega)

theorem readTerm_of_le {fuel : Nat} {cs : List Char} (enough : 2 * cs.length + 2 ≤ fuel) :
    readTerm fuel cs = readTerm (2 * cs.length + 2) cs := by
  induction fuel, enough using Nat.le_induction with
  | base => rfl
  | succ fuel enough ih => rw [(read_succ fuel).1 cs (by omega), ih]

def atEnd (t : Term) (cs : List Char) : Except Stop (Term × List Char) :=
  match skipBlanks cs with
  | [] => .ok (t, [])
  | rest => .error ⟨.trailingInput, rest⟩

def readWhole (fuel : Nat) (cs : List Char) : Except Stop (Term × List Char) :=
  readTerm fuel cs >>= fun (t, rest) => atEnd t rest

theorem decided_readWhole (fuel : Nat) (cs : List Char) : Decided (readWhole fuel) cs := by
  refine ((decided_of_fuel fuel).1 cs).bind fun t rest _ => ?_
  refine decided_of_skipBlanks (fun cs => by rw [atEnd, skipBlanks_skipBlanks]; rfl) ?_
  cases shown : skipBlanks rest with
  | nil => exact decided_of_unread_eq_nil rfl
  | cons c cs =>
    refine decided_at (.error ⟨.trailingInput, []⟩) fun cs => ?_
    rw [atEnd, skipBlanks_cons (visible_of_skipBlanks shown)]
    rfl

theorem readAll_eq {fuel : Nat} {cs : List Char} (enough : 2 * cs.length + 2 ≤ fuel) :
    readAll cs = (readWhole fuel cs).map Prod.fst := by
  rw [readAll, readWhole, readTerm_of_le enough]
  cases readTerm (2 * cs.length + 2) cs with
  | error => rfl
  | ok found =>
    change _ = (atEnd found.1 found.2).map Prod.fst
    rw [atEnd]
    change (match skipBlanks found.2 with
      | [] => Except.ok found.1
      | rest => Except.error (Stop.mk .trailingInput rest)) = _
    split <;> rfl

theorem exists_front_of_readAll {cs : List Char} {stop : Stop} (failed : readAll cs = .error stop) :
    ∃ front, cs = front ++ stop.rest ∧ ∀ c later other, stop.rest = c :: later →
      readAll (front ++ c :: other) = .error ⟨stop.flaw, c :: other⟩ := by
  have whole {fuel : Nat} (enough : 2 * cs.length + 2 ≤ fuel) :
      readWhole fuel cs = .error stop := by
    rw [readAll_eq enough] at failed
    cases outcome : readWhole fuel cs with
    | error =>
      rw [outcome] at failed
      exact congrArg Except.error (Except.error.inj failed)
    | ok => simp [outcome, Except.map] at failed
  obtain ⟨front, parts, -⟩ := decided_readWhole (2 * cs.length + 2) cs
  rw [whole le_rfl] at parts
  refine ⟨front, parts, ?_⟩
  intro c later other stopped
  let fuel := 2 * cs.length + 2 * (front ++ c :: other).length + 2
  have enough : 2 * (front ++ c :: other).length + 2 ≤ fuel := by omega
  obtain ⟨again, same, constant⟩ := decided_readWhole fuel cs
  rw [whole (by omega)] at same constant
  obtain rfl : again = front := List.append_cancel_right (same.symm.trans parts)
  rw [readAll_eq enough, constant c later other stopped]
  rfl

theorem byteCount_eq (cs : List Char) : byteCount cs = String.utf8Len cs := by
  induction cs with
  | nil => rfl
  | cons c cs ih => rw [String.utf8Len_cons, ← ih, Nat.add_comm]; rfl

theorem exists_front_of_parse {text : String} {misreading : Misreading}
    (failed : parse text = .error misreading) :
    ∃ front later, text.toList = front ++ later ∧ String.utf8Len front = misreading.offset ∧
      ∀ c rest other, later = c :: rest →
        parse (String.ofList (front ++ c :: other)) = .error misreading := by
  unfold parse at failed
  cases outcome : readAll text.toList with
  | ok t => simp [outcome, Except.mapError] at failed
  | error stop =>
    rw [outcome] at failed
    obtain rfl := Except.error.inj failed
    obtain ⟨front, parts, constant⟩ := exists_front_of_readAll outcome
    have reached (later : List Char) :
        byteCount (front ++ later) - byteCount later = String.utf8Len front := by
      rw [byteCount_eq, byteCount_eq, String.utf8Len_append, Nat.add_sub_cancel]
    refine ⟨front, stop.rest, parts, ?_, ?_⟩
    · dsimp only
      rw [parts, reached]
    · intro c rest other stopped
      rw [parse, String.toList_ofList, constant c rest other stopped, parts]
      simp only [Except.mapError, reached]

theorem exists_of_utf8GetAux? {cs : List Char} {start offset : String.Pos.Raw} {c : Char}
    (found : String.Pos.Raw.utf8GetAux? cs start offset = some c) :
    ∃ front later, cs = front ++ c :: later ∧
      offset.byteIdx = start.byteIdx + String.utf8Len front := by
  induction cs generalizing start with
  | nil => simp [String.Pos.Raw.utf8GetAux?] at found
  | cons d cs ih =>
    rw [String.Pos.Raw.utf8GetAux?] at found
    split_ifs at found with here
    · obtain rfl := Option.some.inj found
      exact ⟨[], cs, rfl, congrArg String.Pos.Raw.byteIdx here.symm⟩
    · obtain ⟨front, later, rfl, reached⟩ := ih found
      refine ⟨d :: front, later, rfl, reached.trans ?_⟩
      have next : (start + d).byteIdx = start.byteIdx + d.utf8Size := rfl
      rw [next, String.utf8Len_cons]
      omega

theorem take_toBytes {text : String} {front later : List Char}
    (parts : text.toList = front ++ later) :
    (toBytes text).take (String.utf8Len front) = toBytes (String.ofList front) := by
  have size : (toBytes (String.ofList front)).length = String.utf8Len front :=
    String.utf8ByteSize_ofList front
  rw [toBytes_eq, parts, List.flatMap_append, ← toBytes_ofList, ← size, List.take_left]

theorem parse_error_stable {text : String} {misreading : Misreading}
    (failed : parse text = .error misreading) :
    String.Pos.Raw.IsValid text ⟨misreading.offset⟩ ∧
      misreading.offset ≤ text.utf8ByteSize ∧
      (misreading.offset < text.utf8ByteSize → ∀ other : String,
        (toBytes other).take misreading.offset = (toBytes text).take misreading.offset →
        String.Pos.Raw.get? other ⟨misreading.offset⟩ =
          String.Pos.Raw.get? text ⟨misreading.offset⟩ →
        parse other = .error misreading) := by
  obtain ⟨front, later, parts, reached, constant⟩ := exists_front_of_parse failed
  have whole : text = String.ofList front ++ String.ofList later := by
    rw [← String.ofList_append, ← parts, String.ofList_toList]
  have size : text.utf8ByteSize = misreading.offset + String.utf8Len later := by
    rw [whole, String.utf8ByteSize_append, String.utf8ByteSize_ofList, String.utf8ByteSize_ofList,
      reached]
  refine ⟨String.Pos.Raw.isValid_iff_exists_append.2 ⟨_, _, whole, ?_⟩, by omega, ?_⟩
  · rw [← reached, String.rawEndPos, String.utf8ByteSize_ofList]
  intro inside other shared same
  obtain ⟨c, rest, rfl⟩ : ∃ c rest, later = c :: rest := by
    refine List.exists_cons_of_ne_nil ?_
    rintro rfl
    simp at size
    omega
  have here : String.Pos.Raw.get? text ⟨misreading.offset⟩ = some c := by
    rw [← String.ofList_toList (s := text), parts, ← reached, String.get?_of_valid]
    rfl
  rw [here] at same
  obtain ⟨start, rest', split, position⟩ := exists_of_utf8GetAux? same
  change misreading.offset = 0 + _ at position
  rw [Nat.zero_add] at position
  have agreed : toBytes (String.ofList start) = toBytes (String.ofList front) := by
    rw [← take_toBytes split, ← take_toBytes parts, ← position, reached, shared]
  obtain rfl : start = front := String.ofList_inj.1 (toBytes_injective agreed)
  rw [← String.ofList_toList (s := other), split]
  exact constant c rest rest' rfl

theorem parse_error_stable_nested :
    parse "f(g(\"é\" b), c)" = .error ⟨.missingSeparator, 10⟩ ∧
      String.Pos.Raw.IsValid "f(g(\"é\" b), c)" ⟨10⟩ ∧
      parse "f(g(\"é\" b)) ü" = .error ⟨.missingSeparator, 10⟩ := by
  have failed : parse "f(g(\"é\" b), c)" = .error ⟨.missingSeparator, 10⟩ := by decide +kernel
  obtain ⟨boundary, -, stable⟩ := parse_error_stable failed
  exact ⟨failed, boundary, stable (by decide) _ (by decide) (by decide)⟩

end DeclarativeMdp.Term
