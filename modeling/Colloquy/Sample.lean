import Colloquy.Text.Blank

/-!
# Samples

Programs to try out, each with a name. A sample is found by its name without regard to case, with
any blanks or hyphens between the words.
-/

namespace Colloquy

/-- A program with a name. -/
structure Sample where
  name : String
  lines : List String
deriving DecidableEq

namespace Sample

/-- The letter without its case. Of all letters only the capitals of ASCII and the kelvin sign have
a lower case letter in ASCII, and names are written in ASCII. -/
def lower (c : Char) : Char := if c = '\u212a' then 'k' else c.toLower

/-- The words of a name in lower case, joined by hyphens. -/
def slugOf (name : String) : String :=
  "-".intercalate ((Text.words name.toList).map fun word => String.ofList (word.map lower))

/-- The short name of a sample. -/
def slug (s : Sample) : String := slugOf s.name

/-- The source text of a sample; every line is ended. -/
def source (s : Sample) : String := String.join (s.lines.map fun line => line ++ "\n")

/-- Every sample. -/
def all : List Sample :=
  [
    { name := "Hello World"
      lines := [
        "when the program starts:",
        "    say \"Hello, World!\""] },
    { name := "Variables"
      lines := [
        "when the program starts:",
        "    remember name as \"Alice\"",
        "    var age as 25",
        "    say \"Hello, \" followed by name",
        "    say \"You are \" followed by age followed by \" years old\""] },
    { name := "User Input"
      lines := [
        "when the program starts:",
        "    ask \"What is your name?\" and store result in userName",
        "    say \"Nice to meet you, \" followed by userName followed by \"!\""] },
    { name := "Math Operations"
      lines := [
        "when the program starts:",
        "    var x as 10",
        "    var y as 5",
        "",
        "    say \"x + y = \" followed by (x + y)",
        "    say \"x - y = \" followed by (x - y)",
        "    say \"x * y = \" followed by (x * y)",
        "    say \"x divided by y = \" followed by (x / y)",
        "",
        "    increase x by 3",
        "    say \"After increasing x by 3: \" followed by x",
        "",
        "    decrease y by 2",
        "    say \"After decreasing y by 2: \" followed by y"] },
    { name := "Conditionals"
      lines := [
        "when the program starts:",
        "    ask \"Enter your age:\" and store result in age",
        "",
        "    if age is 18 or more:",
        "        say \"You are an adult!\"",
        "    else:",
        "        say \"You are a minor!\"",
        "",
        "    if age is greater than 65:",
        "        say \"You qualify for senior discounts!\""] },
    { name := "Loops"
      lines := [
        "when the program starts:",
        "    var counter as 1",
        "",
        "    while counter is less than 6:",
        "        say \"Count: \" followed by counter",
        "        increase counter by 1",
        "",
        "    var fruits as list of apple, banana and cherry",
        "",
        "    for every fruit in fruits:",
        "        say \"I like \" followed by fruit"] },
    { name := "Functions"
      lines := [
        "to greet using name:",
        "    say \"Hello, \" followed by name followed by \"!\"",
        "",
        "to calculateArea using width and height:",
        "    var area as width * height",
        "    give back area",
        "",
        "when the program starts:",
        "    greet using \"World\"",
        "",
        "    var area as calculateArea using 5 and 3",
        "    say \"Area: \" followed by area"] },
    { name := "Timers"
      lines := [
        "when the program starts:",
        "    var counter as 0",
        "    say \"Timer started!\"",
        "",
        "every 2 seconds:",
        "    increase counter by 1",
        "    say \"Timer tick: \" followed by counter",
        "",
        "    if counter is 5 or more:",
        "        say \"Timer finished!\"",
        "        terminate program"] },
    { name := "Interactive Counter"
      lines := [
        "when the program starts:",
        "    say \"Interactive counter with user input!\"",
        "    ask \"Enter max count:\" and store result in maxCount",
        "    var hasInput as true",
        "    var count as 0",
        "",
        "every 1 seconds:",
        "    if hasInput is true:",
        "        increase count by 1",
        "        say \"Current count: \" followed by count",
        "",
        "        if count is maxCount or more:",
        "            say \"Counter reached maximum!\"",
        "            terminate program"] },
    { name := "Simple Calculator"
      lines := [
        "to addValues using a and b:",
        "    give back a + b",
        "",
        "to subtractValues using a and b:",
        "    give back a - b",
        "",
        "to multiplyValues using a and b:",
        "    give back a * b",
        "",
        "to divideValues using a and b:",
        "    if b is 0:",
        "        say \"Error: Cannot divide by zero!\"",
        "        give back 0",
        "    else:",
        "        give back a / b",
        "",
        "when the program starts:",
        "    say \"Simple Calculator\"",
        "",
        "    ask \"Enter first number:\" and store result in num1",
        "    ask \"Enter second number:\" and store result in num2",
        "",
        "    say \"Addition: \" followed by addValues using num1 and num2",
        "    say \"Subtraction: \" followed by subtractValues using num1 and num2",
        "    say \"Multiplication: \" followed by multiplyValues using num1 and num2",
        "    say \"Division: \" followed by divideValues using num1 and num2"] },
    { name := "Alternative Syntax"
      lines := [
        "ask \"What is your name?\" and store result in name",
        "say \"Hello \" followed by name followed by \"!\"",
        "",
        "set count to 1",
        "repeat while count is less than or equal to 3:",
        "    say \"This is iteration \" followed by count",
        "    add 1 to count"] },
    { name := "Advanced Math"
      lines := [
        "when the program starts:",
        "    set x to 10",
        "    say \"Initial value: \" followed by x",
        "",
        "    add 5 to x",
        "    say \"After adding 5: \" followed by x",
        "",
        "    subtract 3 from x",
        "    say \"After subtracting 3: \" followed by x",
        "",
        "    multiply x by 2",
        "    say \"After multiplying by 2: \" followed by x",
        "",
        "    divide x by 4",
        "    say \"After dividing by 4: \" followed by x"] },
    { name := "Complex Conditionals"
      lines := [
        "when the program starts:",
        "    ask \"Enter your age:\" and store result in age",
        "    ask \"Are you a student? (yes/no)\" and store result in isStudent",
        "",
        "    if age is greater than 18:",
        "        say \"You are an adult\"",
        "        if isStudent is equal to \"yes\":",
        "            say \"You get a student discount!\"",
        "        else:",
        "            say \"Regular adult pricing applies\"",
        "    else if age is greater than 13:",
        "        say \"You are a teenager\"",
        "    else:",
        "        say \"You are a child\"",
        "",
        "    if age is 65 or more:",
        "        say \"Senior citizen benefits available!\""] },
    { name := "List Operations"
      lines := [
        "when the program starts:",
        "    set numbers to list of 1, 2, 3, 4, 5",
        "    say \"List length: \" followed by length of numbers",
        "",
        "    set fruits to list of apple, banana, cherry",
        "    say \"Fruits list length: \" followed by length of fruits",
        "",
        "    for every fruit in fruits:",
        "        say \"Processing: \" followed by fruit",
        "",
        "    set text to \"Hello World\"",
        "    say \"Text length: \" followed by length of text"] }
  ]

/-- The sample of a name, in which hyphens count as blanks. -/
def find? (query : String) : Option Sample :=
  let wanted := slugOf (query.map fun c => if c = '-' then ' ' else c)
  all.find? fun s => s.slug = wanted

end Sample

end Colloquy
