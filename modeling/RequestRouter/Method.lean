import RequestRouter.Text

/-
  Request methods.

  Methods are compared as written, except that the router
  brings the methods it is given into upper case first.

  Key definitions include:
    * `Method.all`
    * `Method.canonical`
    * `Method.serves`
-/

------------------------------------------------------------
-- Methods
------------------------------------------------------------

namespace RequestRouter

namespace Method

/- The method that stands for every method. -/
def all : Text :=
  ['A', 'L', 'L']

/- A method with its ASCII letters in upper case. -/
def canonical
    (method : Text) : Text :=
  method.map Char.toUpper

/- Whether a registered method answers a requested one. -/
def serves
    (registered requested : Text) : Bool :=
  registered == requested || registered == all

end Method

end RequestRouter
