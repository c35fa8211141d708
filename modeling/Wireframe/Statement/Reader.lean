import Wireframe.Statement.Failure

/-! Readers of tokens. A reader takes at least one token, so whatever repeats readers comes to an
end. -/

namespace Wireframe

/-- Reads a value off the front of the tokens; the first argument is the token that stands for the end
of the text. -/
structure Reader (α : Type) where
  run : Token → List Token → Except Failure (α × List Token)
  length_lt : ∀ {stop ts a rest}, run stop ts = .ok (a, rest) → rest.length < ts.length

namespace Reader

variable {α β : Type}

/-- The token in front. -/
def front (stop : Token) : List Token → Token
  | [] => stop
  | t :: _ => t

/-- The failure to find what is wanted in front. -/
def missing (wanted : String) (stop : Token) (ts : List Token) : Failure :=
  .grammar (.expected wanted (front stop ts)) (front stop ts).location

/-- A token of one of the kinds; another token is the given failure. -/
def oneOfOr (kinds : List Token.Kind) (failure : Token → List Token → Failure) : Reader Token where
  run stop ts := match ts with
    | t :: rest => if t.kind ∈ kinds then .ok (t, rest) else .error (failure stop ts)
    | [] => .error (failure stop ts)
  length_lt {stop ts a rest} h := by
    cases ts with
    | nil => cases h
    | cons t ts =>
      simp only at h
      split at h
      · cases h; simp
      · cases h

def oneOf (kinds : List Token.Kind) (wanted : String) : Reader Token :=
  oneOfOr kinds (missing wanted)

/-- A token of the kind; the context completes the message. -/
def token (kind : Token.Kind) (context : String) : Reader Token :=
  oneOf [kind] (kind.label ++ " " ++ context)

/-- A value, then the one that a second reader reads. -/
def andThen (p : Reader α) (f : α → Reader β) : Reader β where
  run stop ts := match p.run stop ts with
    | .error e => .error e
    | .ok (a, rest) => (f a).run stop rest
  length_lt {stop ts b rest} h := by
    cases hp : p.run stop ts with
    | error e => simp [hp] at h
    | ok r =>
      obtain ⟨a, mid⟩ := r
      simp only [hp] at h
      exact Nat.lt_trans ((f a).length_lt h) (p.length_lt hp)

/-- The value under a function that may fail. -/
def check (p : Reader α) (f : α → Except Failure β) : Reader β where
  run stop ts := match p.run stop ts with
    | .error e => .error e
    | .ok (a, rest) => (f a).map (·, rest)
  length_lt {stop ts b rest} h := by
    cases hp : p.run stop ts with
    | error e => simp [hp] at h
    | ok r =>
      obtain ⟨a, mid⟩ := r
      simp only [hp] at h
      cases hf : f a with
      | error e => simp [hf, Except.map] at h
      | ok b' =>
        simp only [hf, Except.map, Except.ok.injEq, Prod.mk.injEq] at h
        exact h.2 ▸ p.length_lt hp

def map (f : α → β) (p : Reader α) : Reader β := p.check fun a => .ok (f a)

/-- The tokens from the first that is no end of line. -/
def skipNewlines (ts : List Token) : List Token := ts.dropWhile (·.kind = .newline)

theorem length_skipNewlines_le (ts : List Token) : (skipNewlines ts).length ≤ ts.length :=
  (List.dropWhile_suffix _).length_le

/-- The value after any ends of line. -/
def afterNewlines (p : Reader α) : Reader α where
  run stop ts := p.run stop (skipNewlines ts)
  length_lt h := Nat.lt_of_lt_of_le (p.length_lt h) (length_skipNewlines_le _)

/-- What stands after an item of a list: a comma or an end of line, after which the list goes on
(`true`), or the closing token. -/
def separator (closing : Token.Kind) (stop : Token) (ts : List Token) :
    Except Failure (Bool × List Token) :=
  match skipNewlines ts with
  | t :: rest =>
    if t.kind = .comma then .ok (true, rest)
    else if t.kind = closing then .ok (false, t :: rest)
    else if (t :: rest).length < ts.length then .ok (true, t :: rest)
    else .error (missing ("',' or " ++ closing.label) stop ts)
  | [] => if 0 < ts.length then .ok (true, []) else .error (missing ("',' or " ++ closing.label) stop ts)

theorem length_separator_le {closing : Token.Kind} {stop : Token} {ts rest : List Token} {b : Bool}
    (h : separator closing stop ts = .ok (b, rest)) : rest.length ≤ ts.length := by
  have hle := length_skipNewlines_le ts
  unfold separator at h
  split at h
  · next t us heq =>
    rw [heq, List.length_cons] at hle
    split at h
    · cases h; omega
    split at h
    · cases h; simpa using hle
    split at h
    · cases h; simpa using hle
    · cases h
  · split at h
    · cases h; simp
    · cases h

/-- The items of a list up to its closing token. -/
def items (closing : Token.Kind) (item : Reader α) (stop : Token) (ts : List Token) :
    Except Failure (List α × List Token) :=
  if (front stop (skipNewlines ts)).kind = closing then .ok ([], skipNewlines ts)
  else match hi : item.run stop (skipNewlines ts) with
    | .error e => .error e
    | .ok (a, rest) => match hs : separator closing stop rest with
      | .error e => .error e
      | .ok (false, left) => .ok ([a], left)
      | .ok (true, left) =>
        have : left.length < ts.length :=
          Nat.lt_of_le_of_lt (length_separator_le hs)
            (Nat.lt_of_lt_of_le (item.length_lt hi) (length_skipNewlines_le ts))
        (items closing item stop left).map fun (as, last) => (a :: as, last)
  termination_by ts.length

theorem length_items_le {closing : Token.Kind} {item : Reader α} {stop : Token}
    {ts rest : List Token} {as : List α} (h : items closing item stop ts = .ok (as, rest)) :
    rest.length ≤ ts.length := by
  fun_induction items closing item stop ts generalizing as rest with
  | case1 ts _ => cases h; exact length_skipNewlines_le ts
  | case2 => cases h
  | case3 => cases h
  | case4 ts _ a mid hi left hs =>
    cases h
    have := item.length_lt hi
    have := length_separator_le hs
    have := length_skipNewlines_le ts
    omega
  | case5 ts _ a mid hi left hs hlt ih =>
    cases hr : items closing item stop left with
    | error e => simp [hr, Except.map] at h
    | ok r =>
      simp only [hr, Except.map, Except.ok.injEq, Prod.mk.injEq] at h
      have := @ih r.2 r.1 hr
      rw [← h.2]
      omega

/-- The items of a list, with the token that closes it. -/
def closed (closing : Token.Kind) (context : String) (item : Reader α) : Reader (List α × Token) where
  run stop ts := match items closing item stop ts with
    | .error e => .error e
    | .ok (as, rest) => ((token closing context).map fun t => (as, t)).run stop rest
  length_lt {stop ts r rest} h := by
    cases hi : items closing item stop ts with
    | error e => simp [hi] at h
    | ok r =>
      obtain ⟨as, mid⟩ := r
      simp only [hi] at h
      exact Nat.lt_of_lt_of_le (Reader.length_lt _ h) (length_items_le hi)

/-- A list between an opening and a closing token; `what` names it in messages. -/
def block (opening closing : Token.Kind) (what : String) (item : Reader α) :
    Reader (List α × Token) :=
  (token opening ("to open " ++ what)).andThen fun _ => closed closing ("to close " ++ what) item

end Reader
end Wireframe
