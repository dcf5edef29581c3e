/-!
The source of random words.

A tape first yields the words it was given and then the outputs of a mixing generator, whose
state runs through all words before it repeats.  The tape ends there, so it holds a definite
number of words, and reading one leaves fewer.
-/

namespace LatencyBalancer

structure WordTape where
  /-- Words to be read before the generator is asked. -/
  given : List UInt64
  state : UInt64
  /-- How many words the generator still yields. -/
  reserve : Nat
deriving DecidableEq, Repr

namespace WordTape

/-- The step from one generator state to the next; it is odd, so every state is reached. -/
def increment : UInt64 := 0x9E3779B97F4A7C15

def mix (state : UInt64) : UInt64 :=
  let first := (state ^^^ (state >>> 30)) * 0xBF58476D1CE4E5B9
  let second := (first ^^^ (first >>> 27)) * 0x94D049BB133111EB
  second ^^^ (second >>> 31)

def ofSeed (seed : UInt64) : WordTape where
  given := []
  state := seed
  reserve := UInt64.size

def ofList (words : List UInt64) : WordTape where
  given := words
  state := 0
  reserve := 0

/-- Put other words in front of the generator, in place of the ones not yet read. -/
def reload (tape : WordTape) (words : List UInt64) : WordTape :=
  { tape with given := words, reserve := UInt64.size }

def remaining (tape : WordTape) : Nat :=
  tape.given.length + tape.reserve

def next? (tape : WordTape) : Option (UInt64 × WordTape) :=
  match tape.given, tape.reserve with
  | word :: words, _ => some (word, { tape with given := words })
  | [], 0 => none
  | [], reserve + 1 =>
      let state := tape.state + increment
      some (mix state, { tape with state := state, reserve := reserve })

theorem remaining_of_next? {tape rest : WordTape} {word : UInt64}
    (read : tape.next? = some (word, rest)) : tape.remaining = rest.remaining + 1 := by
  unfold next? at read
  split at read
  next words reserve given =>
    simp only [Option.some.injEq, Prod.mk.injEq] at read
    rcases read with ⟨_, rfl⟩
    simp [remaining, given]
    omega
  next => contradiction
  next reserve given held =>
    simp only [Option.some.injEq, Prod.mk.injEq] at read
    rcases read with ⟨_, rfl⟩
    simp [remaining, given, held]

end WordTape

end LatencyBalancer
