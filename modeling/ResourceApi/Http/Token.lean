import ResourceApi.Client.Failure

/-!
Token sources. A source is asked once before each request, and says which token goes with it, that
the request is anonymous, or that no token could be had.
-/

namespace ResourceApi.Http

abbrev TokenAnswer := Except Failure (Option String)

/-- Answers given in turn, the last of them again and again. -/
structure TokenSource where
  current : TokenAnswer
  later : List TokenAnswer

namespace TokenSource

/-- The same answer each time: a token, or none. -/
def fixed (token : Option String) : TokenSource := ⟨.ok token, []⟩

/-- Answers in turn; without any the source is that of anonymous requests. -/
def ofList : List TokenAnswer → TokenSource
  | [] => fixed none
  | a :: later => ⟨a, later⟩

def ask (t : TokenSource) : TokenAnswer × TokenSource :=
  (t.current, match t.later with
    | [] => t
    | a :: later => ⟨a, later⟩)

@[simp] theorem ask_fixed (token : Option String) :
    (fixed token).ask = (.ok token, fixed token) := rfl

end TokenSource

end ResourceApi.Http
