import Bibliography.Text

/-!
# Bibliography.Latex.Table

The characters that have a LaTeX sequence.  Sequences come in a few shapes: an
accent before its letter, an accent named by a letter, a command for a letter
or a symbol, a command in mathematics, and plain characters.
-/

namespace Bibliography.Latex

/-- A LaTeX sequence that stands for a character. -/
inductive Sequence where
  /-- A letter with an accent, as in `{\"a}`. -/
  | accent (mark base : Char)
  /-- A letter with an accent that a letter names, as in `{\c c}`. -/
  | spaced (mark base : Char)
  /-- A command, as in `{\ss}`. -/
  | command (name : String)
  /-- A command in mathematics, as in `{$\alpha$}`. -/
  | math (name : String)
  /-- Any other characters. -/
  | plain (text : Text)
deriving DecidableEq, Inhabited

namespace Sequence

/-- The characters of a sequence. -/
def written : Sequence → Text
  | accent mark base => ['{', '\\', mark, base, '}']
  | spaced mark base => ['{', '\\', mark, ' ', base, '}']
  | command name => '{' :: '\\' :: name.toList ++ ['}']
  | math name => '{' :: '$' :: '\\' :: name.toList ++ ['$', '}']
  | plain text => text

/-- The ASCII letters that a sequence is reduced to. -/
def letters : Sequence → Text
  | accent _ base | spaced _ base => [base]
  | command name | math name => name.toList
  | plain _ => []

end Sequence

/-- The characters that have a sequence. -/
def table : List (Char × Sequence) :=
  [('ä', .accent '"' 'a'), ('Ä', .accent '"' 'A'), ('ë', .accent '"' 'e'),
   ('Ë', .accent '"' 'E'), ('ï', .accent '"' 'i'), ('Ï', .accent '"' 'I'),
   ('ö', .accent '"' 'o'), ('Ö', .accent '"' 'O'), ('ü', .accent '"' 'u'),
   ('Ü', .accent '"' 'U'), ('ÿ', .accent '"' 'y'), ('Ÿ', .accent '"' 'Y'),
   ('á', .accent '\'' 'a'), ('Á', .accent '\'' 'A'), ('é', .accent '\'' 'e'),
   ('É', .accent '\'' 'E'), ('í', .accent '\'' 'i'), ('Í', .accent '\'' 'I'),
   ('ó', .accent '\'' 'o'), ('Ó', .accent '\'' 'O'), ('ú', .accent '\'' 'u'),
   ('Ú', .accent '\'' 'U'), ('ý', .accent '\'' 'y'), ('Ý', .accent '\'' 'Y'),
   ('ć', .accent '\'' 'c'), ('Ć', .accent '\'' 'C'), ('ń', .accent '\'' 'n'),
   ('Ń', .accent '\'' 'N'), ('ś', .accent '\'' 's'), ('Ś', .accent '\'' 'S'),
   ('ź', .accent '\'' 'z'), ('Ź', .accent '\'' 'Z'), ('à', .accent '\x60' 'a'),
   ('À', .accent '\x60' 'A'), ('è', .accent '\x60' 'e'), ('È', .accent '\x60' 'E'),
   ('ì', .accent '\x60' 'i'), ('Ì', .accent '\x60' 'I'), ('ò', .accent '\x60' 'o'),
   ('Ò', .accent '\x60' 'O'), ('ù', .accent '\x60' 'u'), ('Ù', .accent '\x60' 'U'),
   ('â', .accent '^' 'a'), ('Â', .accent '^' 'A'), ('ê', .accent '^' 'e'),
   ('Ê', .accent '^' 'E'), ('î', .accent '^' 'i'), ('Î', .accent '^' 'I'),
   ('ô', .accent '^' 'o'), ('Ô', .accent '^' 'O'), ('û', .accent '^' 'u'),
   ('Û', .accent '^' 'U'), ('ã', .accent '~' 'a'), ('Ã', .accent '~' 'A'),
   ('ñ', .accent '~' 'n'), ('Ñ', .accent '~' 'N'), ('õ', .accent '~' 'o'),
   ('Õ', .accent '~' 'O'), ('ç', .spaced 'c' 'c'), ('Ç', .spaced 'c' 'C'),
   ('ş', .spaced 'c' 's'), ('Ş', .spaced 'c' 'S'), ('č', .spaced 'v' 'c'),
   ('Č', .spaced 'v' 'C'), ('ď', .spaced 'v' 'd'), ('Ď', .spaced 'v' 'D'),
   ('ě', .spaced 'v' 'e'), ('Ě', .spaced 'v' 'E'), ('ň', .spaced 'v' 'n'),
   ('Ň', .spaced 'v' 'N'), ('ř', .spaced 'v' 'r'), ('Ř', .spaced 'v' 'R'),
   ('š', .spaced 'v' 's'), ('Š', .spaced 'v' 'S'), ('ť', .spaced 'v' 't'),
   ('Ť', .spaced 'v' 'T'), ('ž', .spaced 'v' 'z'), ('Ž', .spaced 'v' 'Z'),
   ('ő', .spaced 'H' 'o'), ('Ő', .spaced 'H' 'O'), ('ű', .spaced 'H' 'u'),
   ('Ű', .spaced 'H' 'U'), ('ů', .spaced 'r' 'u'), ('Ů', .spaced 'r' 'U'),
   ('å', .command "aa"), ('Å', .command "AA"), ('ß', .command "ss"), ('æ', .command "ae"),
   ('Æ', .command "AE"), ('œ', .command "oe"), ('Œ', .command "OE"), ('ø', .command "o"),
   ('Ø', .command "O"), ('ł', .command "l"), ('Ł', .command "L"), ('ı', .command "i"),
   ('α', .math "alpha"), ('β', .math "beta"), ('γ', .math "gamma"), ('δ', .math "delta"),
   ('ε', .math "epsilon"), ('λ', .math "lambda"), ('μ', .math "mu"), ('π', .math "pi"),
   ('σ', .math "sigma"), ('ω', .math "omega"), ('–', .plain ['-', '-']),
   ('—', .plain ['-', '-', '-']), ('‘', .plain ['\x60']), ('’', .plain ['\'']),
   ('“', .plain ['\x60', '\x60']), ('”', .plain ['\'', '\'']), ('…', .command "ldots"),
   ('¡', .plain ['{', '!', '\x60', '}']), ('¿', .plain ['{', '?', '\x60', '}']),
   ('«', .command "guillemotleft"), ('»', .command "guillemotright"), ('§', .command "S"),
   ('¶', .command "P"), ('©', .command "textcopyright"), ('®', .command "textregistered"),
   ('™', .command "texttrademark"), ('°', .command "textdegree"), ('€', .command "texteuro"),
   ('£', .command "pounds"), ('&', .plain ['\\', '&']), ('%', .plain ['\\', '%'])]

/-- The sequence of a character. -/
def sequence? (c : Char) : Option Sequence := table.lookup c

/-- The written sequence of a character. -/
def latexFor (c : Char) : Option Text := (sequence? c).map Sequence.written

end Bibliography.Latex
