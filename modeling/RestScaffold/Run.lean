import RestScaffold.Fault

/-! # Runs

A run either stops at a fault or gives a result; in both cases it has issued notices, in order.

* `Notice`, `Notice.text`: what a run reports on the way;
* `Run`: notices with a result or a fault, and its monad;
* `Run.result_bind`, `Run.notices_bind`: what sequencing does to either half. -/

namespace RestScaffold

/-- What a run reports on the way. -/
inductive Notice where
  /-- A file of the request is not to be generated. -/
  | skipping (file : String)
  /-- A field has a type number that stands for no type. -/
  | unrecognizedType (field referrer : String) (number : Int32)
  /-- An output file of a contract file is ready. -/
  | generating (path file : String)
deriving DecidableEq

/-- The text of a notice. -/
def Notice.text : Notice → String
  | .skipping file => "Skipping " ++ file ++ ", not listed for generation"
  | .unrecognizedType field referrer number =>
    "Field `" ++ field ++ "` of `" ++ referrer ++ "` has unrecognized type " ++
      toString number.toInt
  | .generating path file => "Generating " ++ path ++ " from " ++ file

/-- The notices issued so far, and the result or the fault that ended the run. -/
structure Run (α : Type) where
  notices : List Notice
  result : Except Fault α

namespace Run

variable {α β : Type}

/-- A run that issues one notice. -/
def notify (n : Notice) : Run Unit :=
  ⟨[n], .ok ()⟩

/-- A run without notices. -/
def ofExcept (r : Except Fault α) : Run α :=
  ⟨[], r⟩

/-- Goes on with `f` unless a fault ended the run; the notices are kept in either case. -/
def andThen (x : Run α) (f : α → Run β) : Run β :=
  match x.result with
  | .error e => ⟨x.notices, .error e⟩
  | .ok a =>
    let y := f a
    ⟨x.notices ++ y.notices, y.result⟩

instance : Monad Run where
  pure a := ⟨[], .ok a⟩
  bind := andThen

@[simp] theorem result_pure (a : α) : (pure a : Run α).result = .ok a := rfl

@[simp] theorem notices_pure (a : α) : (pure a : Run α).notices = [] := rfl

@[simp] theorem result_notify (n : Notice) : (notify n).result = .ok () := rfl

@[simp] theorem notices_notify (n : Notice) : (notify n).notices = [n] := rfl

@[simp] theorem result_ofExcept (r : Except Fault α) : (ofExcept r).result = r := rfl

@[simp] theorem notices_ofExcept (r : Except Fault α) : (ofExcept r).notices = [] := rfl

@[simp] theorem result_bind (x : Run α) (f : α → Run β) :
    (x >>= f).result = x.result >>= fun a => (f a).result := by
  show (andThen x f).result = _
  unfold andThen
  cases x.result <;> rfl

theorem notices_bind (x : Run α) (f : α → Run β) :
    (x >>= f).notices = x.notices ++ (match x.result with
      | .ok a => (f a).notices
      | .error _ => []) := by
  show (andThen x f).notices = _
  unfold andThen
  cases x.result <;> simp

instance : LawfulMonad Run := LawfulMonad.mk' Run
  (fun x => by
    obtain ⟨notices, result⟩ := x
    show andThen _ _ = _
    cases result <;> simp [andThen])
  (fun a f => by
    show andThen (⟨[], .ok a⟩ : Run _) f = f a
    simp [andThen])
  (fun x f g => by
    obtain ⟨notices, result⟩ := x
    show andThen (andThen _ f) g = andThen _ fun a => andThen (f a) g
    cases result with
    | error e => rfl
    | ok a =>
      simp only [andThen]
      cases (f a).result <;> simp)

end Run

end RestScaffold
