import Orus.Text.Lines

/-! # Sample programs

The programs that the editor offers, by name.
-/

namespace Orus.Editor

def welcome : String :=
  Text.unlines [
    "// Welcome to the Orus Playground!",
    "// Try running this example to see how Orus works.",
    "",
    "fn main() \x7b",
    "    // Print a greeting",
    "    print(\"Hello, Orus!\");",
    "",
    "    // Define variables",
    "    let name = \"World\";",
    "    let year = 2025;",
    "",
    "    // String interpolation",
    "    print(\"Hello, \x7bname\x7d! It's currently \x7byear\x7d.\");",
    "",
    "    // Simple calculation",
    "    let result = calculate_sum(5, 7);",
    "    print(\"5 + 7 = \x7bresult\x7d\");",
    "\x7d",
    "",
    "fn calculate_sum(a: i32, b: i32) -> i32 \x7b",
    "    return a + b;",
    "\x7d"]

def helloWorld : String :=
  Text.unlines [
    "// Hello World Example",
    "fn main() \x7b",
    "    print(\"Hello, World!\");",
    "\x7d"]

def fibonacci : String :=
  Text.unlines [
    "// Fibonacci Sequence Example",
    "fn main() \x7b",
    "    print(\"Fibonacci Sequence:\");",
    "    for i in range(0, 9) \x7b",
    "        let value = fibonacci(i);",
    "        print(\"fib(\x7bi\x7d) = \x7bvalue\x7d\");",
    "    \x7d",
    "\x7d",
    "",
    "fn fibonacci(n: i32) -> i32 \x7b",
    "    if n <= 1 \x7b",
    "        return n;",
    "    \x7d else \x7b",
    "        return fibonacci(n - 1) + fibonacci(n - 2);",
    "    \x7d",
    "\x7d"]

def arrays : String :=
  Text.unlines [
    "// Arrays Example",
    "fn main() \x7b",
    "    let mut scores = [90, 72, 85];",
    "    scores = push(scores, 64);",
    "",
    "    let total = sum(scores);",
    "    let count = len(scores);",
    "    print(\"Scores: \x7bscores\x7d\");",
    "    print(\"Total: \x7btotal\x7d over \x7bcount\x7d tests\");",
    "    print(\"Best: \" + max(scores) + \", worst: \" + min(scores));",
    "",
    "    for score in scores \x7b",
    "        if score >= 80 \x7b",
    "            print(\"\x7bscore\x7d passed with distinction\");",
    "        \x7d else if score >= 70 \x7b",
    "            print(\"\x7bscore\x7d passed\");",
    "        \x7d else \x7b",
    "            print(\"\x7bscore\x7d failed\");",
    "        \x7d",
    "    \x7d",
    "\x7d"]

def loops : String :=
  Text.unlines [
    "// Loops Example",
    "fn main() \x7b",
    "    let mut n = 27;",
    "    let mut steps = 0;",
    "    while n != 1 \x7b",
    "        if n % 2 == 0 \x7b",
    "            n = n / 2;",
    "        \x7d else \x7b",
    "            n = 3 * n + 1;",
    "        \x7d",
    "        steps = steps + 1;",
    "    \x7d",
    "    print(\"Collatz steps for 27: \x7bsteps\x7d\");",
    "",
    "    for i in range(1, 10) \x7b",
    "        if i % 2 == 0 \x7b",
    "            continue;",
    "        \x7d",
    "        if i > 7 \x7b",
    "            break;",
    "        \x7d",
    "        print(i);",
    "    \x7d",
    "\x7d"]

/-- The samples by name, in alphabetical order. -/
def samples : List (String × String) := [
  ("arrays", arrays),
  ("default", welcome),
  ("fibonacci", fibonacci),
  ("hello-world", helloWorld),
  ("loops", loops)]

def sample? (name : String) : Option String :=
  (samples.find? fun (n, _) => n == name).map Prod.snd

end Orus.Editor
