/-
A small blog data model to try the program on: five schemas linked by
eight foreign keys, each registered under its model name.
-/
namespace SchemaAtlas

/-- The lines of the example sources. -/
def exampleLines : List String :=
  ["",
   "const mongoose = require('mongoose');",
   "const Schema = mongoose.Schema;",
   "",
   "const UserSchema = new Schema(\x7b",
   "  name: \x7b type: String, required: true \x7d,",
   "  email: \x7b type: String, required: true, unique: true \x7d,",
   "  posts: [\x7b type: Schema.Types.ObjectId, ref: 'Post' \x7d],",
   "  profile: \x7b type: Schema.Types.ObjectId, ref: 'Profile' \x7d,",
   "  createdAt: \x7b type: Date, default: Date.now \x7d",
   "\x7d);",
   "",
   "const PostSchema = new Schema(\x7b",
   "  title: \x7b type: String, required: true \x7d,",
   "  content: String,",
   "  author: \x7b type: Schema.Types.ObjectId, ref: 'User', required: true \x7d,",
   "  comments: [\x7b type: Schema.Types.ObjectId, ref: 'Comment' \x7d],",
   "  tags: [\x7b type: Schema.Types.ObjectId, ref: 'Tag' \x7d],",
   "  publishedAt: Date",
   "\x7d);",
   "",
   "const CommentSchema = new Schema(\x7b",
   "  text: \x7b type: String, required: true \x7d,",
   "  author: \x7b type: Schema.Types.ObjectId, ref: 'User' \x7d,",
   "  post: \x7b type: Schema.Types.ObjectId, ref: 'Post' \x7d,",
   "  createdAt: \x7b type: Date, default: Date.now \x7d",
   "\x7d);",
   "",
   "const ProfileSchema = new Schema(\x7b",
   "  bio: String,",
   "  avatar: String,",
   "  user: \x7b type: Schema.Types.ObjectId, ref: 'User', unique: true \x7d,",
   "  socialLinks: [String]",
   "\x7d);",
   "",
   "const TagSchema = new Schema(\x7b",
   "  name: \x7b type: String, unique: true \x7d,",
   "  slug: String",
   "\x7d);",
   "",
   "mongoose.model('User', UserSchema);",
   "mongoose.model('Post', PostSchema);",
   "mongoose.model('Comment', CommentSchema);",
   "mongoose.model('Profile', ProfileSchema);",
   "mongoose.model('Tag', TagSchema);",
   ""]

/-- The example sources. -/
def exampleSource : String :=
  String.intercalate "\n" exampleLines

end SchemaAtlas
