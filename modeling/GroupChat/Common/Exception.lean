/-!
# Exceptions

What a service call throws.  The constructors are the exception classes the
services raise, each with the text it is raised with, together with the two
kinds of database error that reach the exception filter: a constraint the
statement ran into, under its Prisma code, and a statement that failed for a
reason of its own, such as a lost connection.
-/

namespace GroupChat
namespace Common

/-- The Prisma error codes the program knows by name. -/
inductive PrismaCode where
  /-- A unique constraint. -/
  | P2002
  /-- A foreign key. -/
  | P2003
  /-- The row an update or delete asked for does not exist. -/
  | P2025
deriving DecidableEq, Repr

/-- What a call throws. -/
inductive Exception where
  | badRequest (message : String)
  | unauthorized (message : String)
  | forbidden (message : String)
  | notFound (message : String)
  | conflict (message : String)
  /-- A constraint of the database. -/
  | prisma (code : PrismaCode)
  /-- A statement that failed for a reason outside the program. -/
  | fault
deriving DecidableEq, Repr

end Common
end GroupChat
